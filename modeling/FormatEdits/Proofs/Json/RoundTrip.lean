import FormatEdits.Json.Reader
import FormatEdits.Proofs.Text.Fields
import Mathlib.Data.List.Basic

namespace FormatEdits.Json

section Strings

theorem readString_quote (whole r : Text) : readString whole ('"' :: r) = .ok ([],r) := by
  rw [readString]

theorem readString_named {e c : Char} (h : namedEscape? e = some c) (whole r : Text) :
    readString whole ('\\' :: e :: r) = (readString whole r).map fun (s,r) => (.char c :: s,r) := by
  rw [readString]
  · rw [h]
  · rintro rfl
    simp [namedEscape?] at h

theorem readString_codePoint {c : CodePoint} {digits rest : Text}
    (h : codePoint digits = .ok (c,rest)) (whole : Text) : readString whole ('\\' :: 'u' :: digits) =
      (readString whole rest).map fun (s,r) => (c :: s,r) := by
  rw [readString]
  split
  · next e he => cases he.symm.trans h
  · next d s hd =>
    cases hd.symm.trans h
    rfl

theorem readString_plain {c : Char} (hquote : c ≠ '"') (hslash : c ≠ '\\') (h : ¬ c.toNat < 0x20)
    (whole r : Text) :
    readString whole (c :: r) = (readString whole r).map fun (s,r) => (.char c :: s,r) := by
  rw [readString]
  · rw [if_neg h]
  · exact hquote
  · exact hslash

theorem hexValue?_digitChar : ∀ d < 16, hexValue? (Nat.digitChar d) = some d := by decide

theorem codeUnit?_digitChar {n : Nat} (h : n < 0x10000) :
    codeUnit? (Nat.digitChar (n / 4096 % 16)) (Nat.digitChar (n / 256 % 16))
      (Nat.digitChar (n / 16 % 16)) (Nat.digitChar (n % 16)) = some n := by
  have hdigit (d : Nat) : hexValue? (Nat.digitChar (d % 16)) = some (d % 16) :=
    hexValue?_digitChar _ (Nat.mod_lt d (by decide))
  simp only [codeUnit?,hdigit,Option.bind_eq_bind,Option.bind_some,Option.pure_def,
    Option.some.injEq]
  omega

theorem codePoint_hexDigits {c : Char} (h : c.toNat < 0x20) {r : Text} (hr : r ≠ []) :
    codePoint (Text.hexDigits 4 c.toNat ++ r) = .ok (.char c,r) := by
  obtain ⟨x,s,rfl⟩ := List.exists_cons_of_ne_nil hr
  have hunit := codeUnit?_digitChar (n := c.toNat) (by omega)
  have hhigh : Text.isHigh c.toNat = false := by simp [Text.isHigh]; omega
  have hpoint : Text.unitPoint c.toNat = .char c := by
    rw [Text.unitPoint,dif_neg (by omega),Char.ofNat_toNat]
  simp only [Text.hexDigits,Nat.div_div_eq_div_mul,List.nil_append,List.cons_append]
  rw [codePoint,hunit]
  simp [hpoint,hhigh]

theorem readString_escaped (whole : Text) (c : Char) {r : Text} (hr : r ≠ []) :
    readString whole (escaped c ++ r) = (readString whole r).map fun (s,r) => (.char c :: s,r) := by
  unfold escaped
  split
  · next h => exact readString_named (by rcases h with rfl | rfl <;> rfl) whole r
  · next h =>
    split
    · next h => exact readString_named (by rw [h]; rfl) whole r
    · split
      · next h => exact readString_named (by rw [h]; rfl) whole r
      · split
        · next h => exact readString_named (by rw [h]; rfl) whole r
        · split
          · next h => exact readString_named (by rw [h]; rfl) whole r
          · split
            · next h => exact readString_named (by rw [h]; rfl) whole r
            · split
              · next h => exact readString_codePoint (codePoint_hexDigits h hr) whole
              · next h' =>
                exact readString_plain (fun hc => h (.inl hc)) (fun hc => h (.inr hc)) h' whole r

theorem readString_written (whole s r : Text) :
    readString whole (s.flatMap escaped ++ '"' :: r) = .ok (Text.lift s,r) := by
  induction s with
  | nil => exact readString_quote whole r
  | cons c s ih =>
    rw [List.flatMap_cons,List.append_assoc,readString_escaped _ _ (by simp),ih]
    rfl

end Strings

section Numbers

/-- What may come right behind a value: nothing, or what separates or closes. -/
def Apart (rest : Text) : Prop := ∀ c, rest.head? = some c → c ∈ [',',']','\x7d','\n']

theorem isAsciiDigit_of_isDigit {c : Char} (h : c.isDigit = true) : isAsciiDigit c = true := by
  obtain ⟨hlow,hhigh⟩ : 48 ≤ c.val ∧ c.val ≤ 57 := by simpa [Char.isDigit] using h
  simp only [isAsciiDigit,Bool.and_eq_true,decide_eq_true_eq]
  exact ⟨hlow,hhigh⟩

theorem ne_of_isDigit {c d : Char} (hc : c.isDigit = true) (hd : d.isDigit = false) : c ≠ d := by
  rintro rfl
  cases hc.symm.trans hd

theorem ofNat_append_cons (m : Nat) (rest : Text) :
    ∃ c r, Text.ofNat m ++ rest = c :: r ∧ c.isDigit = true := by
  obtain ⟨c,r,hc⟩ := List.exists_cons_of_ne_nil (Text.ofNat_ne_nil m)
  exact ⟨c,r ++ rest,by rw [hc]; rfl,Text.isDigit_of_mem_ofNat (hc ▸ List.mem_cons_self)⟩

theorem asciiValue_ofNat (n : Nat) : asciiValue (Text.ofNat n) = n := Nat.ofDigitChars_ten_toDigits

theorem head?_ofNat {n : Nat} (h : n ≠ 0) : (Text.ofNat n).head? ≠ some '0' := by
  induction n using Nat.strongRecOn with
  | _ n ih =>
    rw [Text.ofNat,Nat.toDigits_eq_if (by decide)]
    split
    · next hlt =>
      have hall : ∀ d < 10, d ≠ 0 → [Nat.digitChar d].head? ≠ some '0' := by decide
      exact hall n hlt h
    · next hge =>
      rw [List.head?_append_of_ne_nil _ Nat.toDigits_ne_nil]
      exact ih (n / 10) (by omega) (by omega)

section Behind

variable {rest : Text} (h : Apart rest)

include h

theorem Apart.cases : rest = [] ∨
    ∃ c r, rest = c :: r ∧ (c = ',' ∨ c = ']' ∨ c = '\x7d' ∨ c = '\n') := by
  cases rest with
  | nil => exact .inl rfl
  | cons c r => exact .inr ⟨c,r,rfl,by simpa using h c rfl⟩

theorem Apart.readFraction : readFraction rest = none := by
  obtain rfl | ⟨c,r,rfl,rfl | rfl | rfl | rfl⟩ := h.cases <;> rfl

theorem Apart.readPower : readPower rest = none := by
  obtain rfl | ⟨c,r,rfl,rfl | rfl | rfl | rfl⟩ := h.cases <;> rfl

theorem takeWhile_ofNat (n : Nat) :
    (Text.ofNat n ++ rest).takeWhile isAsciiDigit = Text.ofNat n := by
  rw [List.takeWhile_append_of_pos fun c hc =>
    isAsciiDigit_of_isDigit (Text.isDigit_of_mem_ofNat hc)]
  have hrest : rest.takeWhile isAsciiDigit = [] := by
    obtain rfl | ⟨c,r,rfl,rfl | rfl | rfl | rfl⟩ := h.cases <;> rfl
  rw [hrest,List.append_nil]

theorem leadingDigits_ofNat (n : Nat) :
    (match Text.ofNat n ++ rest with
      | '0' :: _ => ['0']
      | r => r.takeWhile isAsciiDigit) = Text.ofNat n := by
  by_cases hn : n = 0
  · subst hn
    rfl
  · split
    · next r heq =>
      have hhead := head?_ofNat hn
      have happend : (Text.ofNat n ++ rest).head? = (Text.ofNat n).head? :=
        List.head?_append_of_ne_nil _ (Text.ofNat_ne_nil n)
      rw [← happend,heq] at hhead
      exact absurd rfl hhead
    · exact takeWhile_ofNat h n

end Behind

theorem length_ofNat_le {n limit : Nat} (hlimit : 0 < limit) (h : n < Nat.pow 10 limit) :
    (Text.ofNat n).length ≤ limit :=
  (Nat.length_toDigits_le_iff (by decide) hlimit).mpr h

/-- Digits behind a sign, or without one, are read back with it. -/
theorem readNumber_digits {m : Nat} (h : m < Nat.pow 10 Text.digitLimit) {rest t : Text}
    (hrest : Apart rest) (negative : Bool)
    (ht : t = (if negative then ['-'] else []) ++ (Text.ofNat m ++ rest)) :
    readNumber t = .ok (.int (if negative then -(m : Int) else m),rest) := by
  have hlength : ¬ Text.digitLimit < (Text.ofNat m).length :=
    Nat.not_lt.mpr (length_ofNat_le (by decide) h)
  unfold readNumber
  split
  next sign r hsplit =>
  have hr : (sign,r) = (negative,Text.ofNat m ++ rest) := by
    rw [← hsplit,ht]
    cases negative with
    | true => rfl
    | false =>
      obtain ⟨d,ds,hd,hdigit⟩ := ofNat_append_cons m rest
      simp [hd,ne_of_isDigit hdigit (d := '-') (by decide)]
  cases hr
  extract_lets digits r fraction afterFraction power behind n
  have hdigits : digits = Text.ofNat m := leadingDigits_ofNat hrest m
  have hr : r = rest := by simp only [r,hdigits,List.drop_left]
  have hfraction : fraction = none := by rw [← hrest.readFraction,← hr]
  have hafter : afterFraction = rest := by
    simp only [afterFraction,hfraction,hr,Option.map_none,Option.getD_none]
  have hpower : power = none := by rw [← hrest.readPower,← hafter]
  have hbehind : behind = rest := by
    simp only [behind,hpower,hafter,Option.map_none,Option.getD_none]
  have hn : n = m := by rw [← asciiValue_ofNat m,← hdigits]
  rw [if_neg (hdigits ▸ Text.ofNat_ne_nil m),if_pos (by rw [hfraction,hpower]; rfl),
    if_neg (hdigits ▸ hlength),hn,hbehind]

theorem readNumber_ofInt {n : Int} (h : writableInt n = true) {rest : Text} (hrest : Apart rest) :
    readNumber (Text.ofInt n ++ rest) = .ok (.int n,rest) := by
  cases n with
  | ofNat m => exact readNumber_digits (of_decide_eq_true h) hrest false rfl
  | negSucc m => exact readNumber_digits (of_decide_eq_true h) hrest true rfl

end Numbers

/-- A value that a text can give back: its numbers are whole and not too long, no object has two
members of one name, and at most so many lists and objects are within one another. -/
inductive Regular : Nat → Json → Prop
  | null (room : Nat) : Regular room .null
  | bool (room : Nat) (b : Bool) : Regular room (.bool b)
  | int (room : Nat) {n : Int} (h : writableInt n = true) : Regular room (.int n)
  | string (room : Nat) (s : Text) : Regular room (.string s)
  | array {room : Nat} {items : List Json} (h : ∀ v ∈ items, Regular room v) :
      Regular (room + 1) (.array items)
  | object {room : Nat} {members : List (Text × Json)} (hnames : (members.map (·.1)).Nodup)
      (h : ∀ m ∈ members, Regular room m.2) : Regular (room + 1) (.object members)

section Blanks

theorem skipSpace_newLine (l : Layout) (depth : Nat) (t : Text) :
    skipSpace (l.newLine depth ++ t) = skipSpace t := by
  have h : ∀ c ∈ l.newLine depth, isSpace c = true := by
    unfold Layout.newLine
    split
    · nofun
    · intro c hc
      rcases List.mem_cons.mp hc with rfl | hc
      · rfl
      · rw [List.eq_of_mem_replicate hc]
        rfl
  rw [skipSpace,List.dropWhile_append_of_pos h,skipSpace]

theorem skipSpace_cons {c : Char} (h : isSpace c = false) (t : Text) :
    skipSpace (c :: t) = c :: t := by
  simp [skipSpace,h]

theorem apart_cons {c : Char} (h : c ∈ [',',']','\x7d','\n']) (t : Text) : Apart (c :: t) := by
  intro d hd
  cases hd
  exact h

theorem apart_newLine (l : Layout) (depth : Nat) {c : Char} (h : c ∈ [',',']','\x7d','\n'])
    (t : Text) : Apart (l.newLine depth ++ c :: t) := by
  unfold Layout.newLine
  split
  · exact apart_cons h t
  · exact apart_cons (by decide) _

end Blanks

section Values

theorem isSpace_of_isDigit {c : Char} (h : c.isDigit = true) : isSpace c = false := by
  simp only [isSpace,Bool.or_eq_false_iff,beq_eq_false_iff_ne]
  refine ⟨⟨⟨?_,?_⟩,?_⟩,?_⟩ <;> rintro rfl <;> exact absurd h (by decide)

theorem ofInt_cons (n : Int) :
    ∃ c r, Text.ofInt n = c :: r ∧ (c = '-' ∨ c.isDigit = true) := by
  cases n with
  | ofNat m =>
    obtain ⟨c,r,hc,hdigit⟩ := ofNat_append_cons m []
    exact ⟨c,r,by rw [← hc,List.append_nil]; rfl,.inr hdigit⟩
  | negSucc m => exact ⟨'-',_,rfl,.inl rfl⟩

/-- A value can be told from what closes a list by its first character. -/
theorem writeAt_cons {room : Nat} {v : Json} (h : Regular room v) (l : Layout) (depth : Nat) :
    ∃ c r, writeAt l depth v = c :: r ∧ isSpace c = false ∧ c ≠ ']' := by
  cases h with
  | null => exact ⟨'n',_,rfl,by decide,by decide⟩
  | bool _ b =>
    cases b with
    | true => exact ⟨'t',_,rfl,by decide,by decide⟩
    | false => exact ⟨'f',_,rfl,by decide,by decide⟩
  | @int _ n =>
    obtain ⟨c,r,hc,rfl | hdigit⟩ := ofInt_cons n
    · exact ⟨'-',r,hc,by decide,by decide⟩
    · exact ⟨c,r,hc,isSpace_of_isDigit hdigit,ne_of_isDigit hdigit (by decide)⟩
  | string => exact ⟨'"',_,rfl,by decide,by decide⟩
  | @array _ items =>
    cases items with
    | nil => exact ⟨'[',_,rfl,by decide,by decide⟩
    | cons item items => exact ⟨'[',_,rfl,by decide,by decide⟩
  | @object _ members =>
    rcases members with _ | ⟨⟨name,value⟩,members⟩
    · exact ⟨'\x7b',_,rfl,by decide,by decide⟩
    · exact ⟨'\x7b',_,rfl,by decide,by decide⟩

/-- The value is read back wherever it is written, with fuel for twice its characters. -/
def Reads (l : Layout) (room : Nat) (v : Json) : Prop :=
  ∀ depth fuel rest, 2 * (writeAt l depth v).length ≤ fuel → Apart rest →
    readValue fuel room (writeAt l depth v ++ rest) = .ok (v,rest)

variable {l : Layout} {room : Nat}

/-- Nothing is written as no characters, so that there is fuel to read it. -/
theorem fuel_of_written {v : Json} (h : Regular room v) {depth fuel : Nat}
    (hfuel : 2 * (writeAt l depth v).length ≤ fuel) : ∃ f, fuel = f + 1 := by
  obtain ⟨c,r,hc,-⟩ := writeAt_cons h l depth
  rw [hc,List.length_cons] at hfuel
  exact ⟨fuel - 1,by omega⟩

theorem readName?_ofInt (n : Int) (rest : Text) : readName? (Text.ofInt n ++ rest) = none := by
  cases n with
  | ofNat m =>
    obtain ⟨c,r,hc,hdigit⟩ := ofNat_append_cons m rest
    have hne (d : Char) (hd : d.isDigit = false) : d ≠ c := (ne_of_isDigit hdigit hd).symm
    rw [Text.ofInt,hc]
    simp [readName?,names,Text.after?,hne]
  | negSucc m =>
    obtain ⟨c,r,hc,hdigit⟩ := ofNat_append_cons (m + 1) rest
    have hne : 'I' ≠ c := (ne_of_isDigit hdigit (by decide)).symm
    rw [Text.ofInt,List.cons_append,hc]
    simp [readName?,names,Text.after?,hne]

theorem reads_int {n : Int} (h : writableInt n = true) : Reads l room (.int n) := by
  intro depth fuel rest hfuel hrest
  obtain ⟨c,r,hc,hfirst⟩ := ofInt_cons n
  obtain ⟨fuel,rfl⟩ := fuel_of_written (.int room h) hfuel
  have hne : c ≠ '"' ∧ c ≠ '[' ∧ c ≠ '\x7b' := by
    rcases hfirst with rfl | hdigit
    · decide
    · exact ⟨ne_of_isDigit hdigit (by decide),ne_of_isDigit hdigit (by decide),
        ne_of_isDigit hdigit (by decide)⟩
  rw [writeAt,hc,List.cons_append,readValue]
  · rw [← List.cons_append,← hc,readName?_ofInt]
    exact readNumber_ofInt h hrest
  all_goals simp [hne]

theorem reads_string (s : Text) : Reads l room (.string s) := by
  intro depth fuel rest hfuel hrest
  obtain ⟨fuel,rfl⟩ := fuel_of_written (.string room s) hfuel
  have hwritten : writeAt l depth (.string s) ++ rest =
      '"' :: (s.flatMap escaped ++ '"' :: rest) := by
    simp [writeAt,writeString]
  rw [hwritten,readValue,readString_written]
  exact congrArg (fun v => Except.ok (v,rest)) (ofPoints_lift s)

theorem readItems_written {item : Json} {items : List Json}
    (hitem : Reads l room item) (hitems : ∀ v ∈ items, Reads l room v ∧ Regular room v)
    (depth inner fuel : Nat) (rest : Text)
    (hfuel : 2 * ((writeAt l inner item).length + (writeItems l inner items).length) + 1 ≤ fuel) :
    readItems fuel room (writeAt l inner item ++ (writeItems l inner items ++
      (l.newLine depth ++ ']' :: rest))) = .ok (item :: items,rest) := by
  induction items generalizing item fuel with
  | nil =>
    obtain ⟨fuel,rfl⟩ : ∃ f, fuel = f + 1 := ⟨fuel - 1,by omega⟩
    rw [readItems,writeItems,List.nil_append,hitem inner fuel _ (by omega)
      (apart_newLine l depth (by decide) rest)]
    simp only [skipSpace_newLine,skipSpace_cons (c := ']') (by decide)]
  | cons next items ih =>
    obtain ⟨fuel,rfl⟩ : ∃ f, fuel = f + 1 := ⟨fuel - 1,by omega⟩
    obtain ⟨⟨hnext,hregular⟩,hitems⟩ := List.forall_mem_cons.mp hitems
    obtain ⟨c,r,hc,hspace,-⟩ := writeAt_cons hregular l inner
    have hlength : (writeItems l inner (next :: items)).length =
        (l.newLine inner).length + (writeAt l inner next).length +
          (writeItems l inner items).length + 1 := by
      simp only [writeItems,List.length_append,List.length_cons]
      omega
    have hafter : writeItems l inner (next :: items) ++ (l.newLine depth ++ ']' :: rest) =
        ',' :: (l.newLine inner ++ (writeAt l inner next ++ (writeItems l inner items ++
          (l.newLine depth ++ ']' :: rest)))) := by
      simp [writeItems]
    have hskip (t : Text) : skipSpace (writeAt l inner next ++ t) = writeAt l inner next ++ t := by
      rw [hc]
      exact skipSpace_cons hspace (r ++ t)
    rw [readItems,hafter,hitem inner fuel _ (by omega) (apart_cons (by decide) _)]
    simp only [skipSpace_cons (c := ',') (by decide),skipSpace_newLine,hskip]
    rw [ih hnext hitems fuel (by omega)]
    rfl

theorem putMember_of_not_mem {members : List (Text × Json)} {name : Text}
    (h : name ∉ members.map (·.1)) (value : Json) :
    putMember members name value = members ++ [(name,value)] := by
  rw [putMember,if_neg]
  simpa using h

theorem skipSpace_colon (l : Layout) {c : Char} (h : isSpace c = false) (t : Text) :
    ∃ r, l.colon ++ c :: t = ':' :: r ∧ skipSpace r = c :: t := by
  unfold Layout.colon
  split
  · exact ⟨_,rfl,skipSpace_cons h t⟩
  · exact ⟨_,rfl,skipSpace_cons h t⟩

/-- A member is read back, and what comes behind it ends the object or goes on with another one. -/
theorem readMembers_member {name : Text} {value : Json} {found : List (Text × Json)}
    (hvalue : Reads l room value) (hregular : Regular room value) (hname : name ∉ found.map (·.1))
    {inner fuel : Nat} (hfuel : 2 * (writeAt l inner value).length ≤ fuel) {behind t : Text}
    (hbehind : Apart behind) :
    let text := writeString name ++ (l.colon ++ (writeAt l inner value ++ behind))
    (skipSpace behind = '\x7d' :: t →
        readMembers (fuel + 1) room found text = .ok (found ++ [(name,value)],t)) ∧
      (skipSpace behind = ',' :: t →
        readMembers (fuel + 1) room found text =
          readMembers fuel room (found ++ [(name,value)]) (skipSpace t)) := by
  obtain ⟨c,r,hc,hspace,-⟩ := writeAt_cons hregular l inner
  obtain ⟨s,hs,hskip⟩ := skipSpace_colon l hspace (r ++ behind)
  rw [← List.cons_append,← hc] at hs hskip
  have hwritten : writeString name ++ (l.colon ++ (writeAt l inner value ++ behind)) =
      '"' :: (name.flatMap escaped ++ '"' :: ':' :: s) := by
    simp [writeString,hs]
  have hread := hvalue inner fuel behind hfuel hbehind
  refine ⟨fun hnext => ?_,fun hnext => ?_⟩
  all_goals
    rw [hwritten,readMembers,readString_written]
    simp only [skipSpace_cons (c := ':') (by decide),hskip,hread,hnext,Text.map_shown_lift,
      putMember_of_not_mem hname]

theorem name_not_mem {found members : List (Text × Json)} {name : Text} {value : Json}
    (h : ((found ++ (name,value) :: members).map (·.1)).Nodup) : name ∉ found.map (·.1) := by
  rw [List.map_append,List.map_cons] at h
  exact fun hmem => (List.nodup_append.mp h).2.2 _ hmem _ List.mem_cons_self rfl

theorem readMembers_written {name : Text} {value : Json} {members : List (Text × Json)}
    (hvalue : Reads l room value ∧ Regular room value)
    (hmembers : ∀ m ∈ members, Reads l room m.2 ∧ Regular room m.2)
    (found : List (Text × Json)) (hnames : ((found ++ (name,value) :: members).map (·.1)).Nodup)
    (depth inner fuel : Nat) (rest : Text)
    (hfuel : 2 * ((writeAt l inner value).length + (writeMembers l inner members).length) + 1 ≤
      fuel) :
    readMembers fuel room found (writeString name ++ (l.colon ++ (writeAt l inner value ++
      (writeMembers l inner members ++ (l.newLine depth ++ '\x7d' :: rest))))) =
        .ok (found ++ (name,value) :: members,rest) := by
  induction members generalizing name value found fuel with
  | nil =>
    obtain ⟨fuel,rfl⟩ : ∃ f, fuel = f + 1 := ⟨fuel - 1,by omega⟩
    rw [writeMembers,List.nil_append]
    refine (readMembers_member hvalue.1 hvalue.2 (name_not_mem hnames) (by omega)
      (apart_newLine l depth (by decide) rest)).1 ?_
    rw [skipSpace_newLine,skipSpace_cons (by decide)]
  | cons next members ih =>
    obtain ⟨fuel,rfl⟩ : ∃ f, fuel = f + 1 := ⟨fuel - 1,by omega⟩
    obtain ⟨nextName,nextValue⟩ := next
    obtain ⟨hnext,hmembers⟩ : (Reads l room nextValue ∧ Regular room nextValue) ∧
        ∀ m ∈ members, Reads l room m.2 ∧ Regular room m.2 := List.forall_mem_cons.mp hmembers
    have hlength : (writeMembers l inner ((nextName,nextValue) :: members)).length =
        (l.newLine inner).length + (writeString nextName).length + l.colon.length +
          (writeAt l inner nextValue).length + (writeMembers l inner members).length + 1 := by
      simp only [writeMembers,List.length_append,List.length_cons]
      omega
    have hafter : writeMembers l inner ((nextName,nextValue) :: members) ++
        (l.newLine depth ++ '\x7d' :: rest) =
          ',' :: (l.newLine inner ++ (writeString nextName ++ (l.colon ++
            (writeAt l inner nextValue ++ (writeMembers l inner members ++
              (l.newLine depth ++ '\x7d' :: rest)))))) := by
      simp [writeMembers]
    have hskip (t : Text) : skipSpace (writeString nextName ++ t) = writeString nextName ++ t :=
      skipSpace_cons (by decide) _
    rw [hafter]
    refine ((readMembers_member hvalue.1 hvalue.2 (name_not_mem hnames) (by omega)
      (apart_cons (by decide) _)).2 (skipSpace_cons (by decide) _)).trans ?_
    rw [skipSpace_newLine,hskip,ih hnext hmembers _ (by simpa using hnames) fuel (by omega),
      List.append_assoc]
    rfl

theorem reads_array {items : List Json} (h : ∀ v ∈ items, Reads l room v ∧ Regular room v) :
    Reads l (room + 1) (.array items) := by
  intro depth fuel rest hfuel hrest
  have hregular : Regular (room + 1) (.array items) := .array fun v hv => (h v hv).2
  obtain ⟨fuel,rfl⟩ := fuel_of_written hregular hfuel
  cases items with
  | nil => rfl
  | cons item items =>
    obtain ⟨⟨hread,hitem⟩,hothers⟩ := List.forall_mem_cons.mp h
    simp only [writeAt,List.length_cons,List.length_append,List.length_nil] at hfuel
    -- The first character of an item tells that the list is not empty.
    obtain ⟨c,r,hc,hspace,hclose⟩ := writeAt_cons hitem l (depth + 1)
    have hwritten : writeAt l depth (.array (item :: items)) ++ rest =
        '[' :: (l.newLine (depth + 1) ++ (writeAt l (depth + 1) item ++
          (writeItems l (depth + 1) items ++ (l.newLine depth ++ ']' :: rest)))) := by
      simp [writeAt]
    have hskip (t : Text) :
        skipSpace (l.newLine (depth + 1) ++ (writeAt l (depth + 1) item ++ t)) =
          c :: (r ++ t) := by
      rw [skipSpace_newLine,hc]
      exact skipSpace_cons hspace _
    have hitems := readItems_written hread hothers depth (depth + 1) fuel rest (by omega)
    rw [hc] at hitems
    rw [hwritten,readValue,hskip]
    split
    · next heq => exact absurd (List.cons.inj heq).1 hclose
    · next heq =>
      rw [← List.cons_append,hitems]
      rfl

theorem reads_object {members : List (Text × Json)} (hnames : (members.map (·.1)).Nodup)
    (h : ∀ m ∈ members, Reads l room m.2 ∧ Regular room m.2) :
    Reads l (room + 1) (.object members) := by
  intro depth fuel rest hfuel hrest
  have hregular : Regular (room + 1) (.object members) := .object hnames fun m hm => (h m hm).2
  obtain ⟨fuel,rfl⟩ := fuel_of_written hregular hfuel
  rcases members with _ | ⟨⟨name,value⟩,members⟩
  · rfl
  · obtain ⟨hvalue,hothers⟩ : (Reads l room value ∧ Regular room value) ∧
        ∀ m ∈ members, Reads l room m.2 ∧ Regular room m.2 := List.forall_mem_cons.mp h
    simp only [writeAt,List.length_cons,List.length_append,List.length_nil] at hfuel
    have hwritten : writeAt l depth (.object ((name,value) :: members)) ++ rest =
        '\x7b' :: (l.newLine (depth + 1) ++ (writeString name ++ (l.colon ++
          (writeAt l (depth + 1) value ++ (writeMembers l (depth + 1) members ++
            (l.newLine depth ++ '\x7d' :: rest)))))) := by
      simp [writeAt]
    have hskip (t : Text) : skipSpace (l.newLine (depth + 1) ++ (writeString name ++ t)) =
        writeString name ++ t := by
      rw [skipSpace_newLine]
      exact skipSpace_cons (by decide) _
    have hmembers :=
      readMembers_written hvalue hothers [] hnames depth (depth + 1) fuel rest (by omega)
    rw [hwritten,readValue,hskip]
    split
    · next heq => cases heq
    · next heq =>
      rw [hmembers]
      rfl

/-- A regular value is read back from where it is written, whatever the layout. -/
theorem Regular.reads {v : Json} (h : Regular room v) (l : Layout) : Reads l room v := by
  induction h with
  | null room =>
    intro depth fuel rest hfuel hrest
    obtain ⟨fuel,rfl⟩ := fuel_of_written (.null room) hfuel
    rfl
  | bool room b =>
    intro depth fuel rest hfuel hrest
    obtain ⟨fuel,rfl⟩ := fuel_of_written (.bool room b) hfuel
    cases b <;> rfl
  | int _ hn => exact reads_int hn
  | string _ s => exact reads_string s
  | array hitems ih => exact reads_array fun v hv => ⟨ih v hv,hitems v hv⟩
  | object hnames hmembers ih => exact reads_object hnames fun m hm => ⟨ih m hm,hmembers m hm⟩

end Values

/-- A value that is written in any layout is read back from the text. -/
theorem read_write {v : Json} (h : Regular depthLimit v) (l : Layout) :
    read (write l v) = .ok v := by
  obtain ⟨c,r,hc,hspace,-⟩ := writeAt_cons h l 0
  have hskip : skipSpace (write l v) = write l v := by
    rw [write,hc]
    exact skipSpace_cons hspace r
  have hread := h.reads l 0 (2 * (write l v).length + 2) [] (by rw [write]; omega) (by simp [Apart])
  rw [List.append_nil,← write] at hread
  rw [read,hskip,hread]
  rfl

end FormatEdits.Json
