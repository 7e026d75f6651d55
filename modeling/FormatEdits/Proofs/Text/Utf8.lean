import FormatEdits.Text.Encoding
import Mathlib.Data.List.Basic

namespace FormatEdits.Text.Utf8

theorem toNat_ofNat {n : Nat} (h : n < 256) : (UInt8.ofNat n).toNat = n := by
  rw [UInt8.toNat_ofNat',Nat.mod_eq_of_lt h]

theorem readTail_ofNat {owed low high value width n : Nat} (hlow : low ≤ n) (hhigh : n ≤ high)
    (hn : n < 256) (r : Bytes) : readTail (owed + 1) low high value width (UInt8.ofNat n :: r) =
      readTail owed 0x80 0xBF (value * 64 + (n - 0x80)) (width + 1) r := by
  rw [readTail,toNat_ofNat hn,if_pos ⟨hlow,hhigh⟩]

theorem readChar_ofNat {n owed low high value : Nat} (hn : n < 256) (hlarge : ¬ n < 0x80)
    (h : lead? n = some (owed,low,high,value)) (r : Bytes) :
    readChar (UInt8.ofNat n) r = readTail owed low high value 1 r := by
  rw [readChar,toNat_ofNat hn,if_neg hlarge,h]

/-- The first of three bytes rules out overlong forms and surrogates by the range of the next. -/
theorem lead?_three {n : Nat} (hlow : 0x800 ≤ n) (hhigh : n < 0x10000)
    (hvalid : n < 0xD800 ∨ 0xDFFF < n) : ∃ low high,
      lead? (0xE0 + n / 4096) = some (2,low,high,n / 4096) ∧
        low ≤ 0x80 + n / 64 % 64 ∧ 0x80 + n / 64 % 64 ≤ high := by
  unfold lead?
  rw [if_neg (by omega)]
  split
  · exact ⟨0xA0,0xBF,by rw [show n / 4096 = 0 by omega],by omega,by omega⟩
  · split
    · exact ⟨0x80,0x9F,by rw [show n / 4096 = 0xD by omega],by omega,by omega⟩
    · rw [if_pos (by omega)]
      exact ⟨0x80,0xBF,by rw [Nat.add_sub_cancel_left],by omega,by omega⟩

/-- The first of four bytes rules out overlong forms and what is past the last code point. -/
theorem lead?_four {n : Nat} (hlow : 0x10000 ≤ n) (hhigh : n < 0x110000) : ∃ low high,
    lead? (0xF0 + n / 262144) = some (3,low,high,n / 262144) ∧
      low ≤ 0x80 + n / 4096 % 64 ∧ 0x80 + n / 4096 % 64 ≤ high := by
  unfold lead?
  rw [if_neg (by omega),if_neg (by omega),if_neg (by omega),if_neg (by omega)]
  split
  · exact ⟨0x90,0xBF,by rw [show n / 262144 = 0 by omega],by omega,by omega⟩
  · split
    · exact ⟨0x80,0xBF,by rw [Nat.add_sub_cancel_left],by omega,by omega⟩
    · rw [if_pos (by omega)]
      exact ⟨0x80,0x8F,by rw [show n / 262144 = 4 by omega],by omega,by omega⟩

theorem readChar_encodeChar (c : Char) : ∃ b r, encodeChar c = b :: r ∧
    ∀ rest, readChar b (r ++ rest) = .char c rest := by
  have hvalid : c.toNat < 0xD800 ∨ 0xDFFF < c.toNat ∧ c.toNat < 0x110000 := c.valid
  have hc : Char.ofNat c.toNat = c := Char.ofNat_toNat c
  generalize hn : c.toNat = n at hvalid hc
  unfold encodeChar
  simp only [hn]
  split
  · next h =>
    refine ⟨_,_,rfl,fun rest => ?_⟩
    rw [readChar,toNat_ofNat (by omega),if_pos h,hc,List.nil_append]
  · split
    · next h =>
      have hlead : lead? (0xC0 + n / 64) = some (1,0x80,0xBF,n / 64) := by
        rw [lead?,if_pos (by omega),Nat.add_sub_cancel_left]
      refine ⟨_,_,rfl,fun rest => ?_⟩
      rw [readChar_ofNat (by omega) (by omega) hlead,List.cons_append,
        readTail_ofNat (by omega) (by omega) (by omega),readTail]
      rw [show n / 64 * 64 + (0x80 + n % 64 - 0x80) = n by omega,hc,List.nil_append]
    · split
      · next h =>
        obtain ⟨low,high,hlead,hlow,hhigh⟩ := lead?_three (n := n) (by omega) h (by omega)
        refine ⟨_,_,rfl,fun rest => ?_⟩
        rw [readChar_ofNat (by omega) (by omega) hlead,List.cons_append,
          readTail_ofNat hlow hhigh (by omega),List.cons_append,
          readTail_ofNat (by omega) (by omega) (by omega),readTail]
        rw [show (n / 4096 * 64 + (0x80 + n / 64 % 64 - 0x80)) * 64 + (0x80 + n % 64 - 0x80) = n by
          omega,hc,List.nil_append]
      · next h =>
        obtain ⟨low,high,hlead,hlow,hhigh⟩ := lead?_four (n := n) (by omega) (by omega)
        refine ⟨_,_,rfl,fun rest => ?_⟩
        rw [readChar_ofNat (by omega) (by omega) hlead,List.cons_append,
          readTail_ofNat hlow hhigh (by omega),List.cons_append,
          readTail_ofNat (by omega) (by omega) (by omega),List.cons_append,
          readTail_ofNat (by omega) (by omega) (by omega),readTail]
        rw [show ((n / 262144 * 64 + (0x80 + n / 4096 % 64 - 0x80)) * 64 +
            (0x80 + n / 64 % 64 - 0x80)) * 64 + (0x80 + n % 64 - 0x80) = n by
          omega,hc,List.nil_append]

theorem scan_encode (position : Nat) (t : Text) : scan position (encode t) = t.map .ok := by
  induction t generalizing position with
  | nil => rw [encode,List.flatMap_nil,scan,List.map_nil]
  | cons c t ih =>
    obtain ⟨b,r,hb,hr⟩ := readChar_encodeChar c
    have hbytes : encode (c :: t) = b :: (r ++ encode t) := by
      simp [encode,hb]
    rw [hbytes,scan]
    split
    · next d rest h =>
      cases (hr (encode t)).symm.trans h
      rw [ih,List.map_cons]
    · next h => cases (hr (encode t)).symm.trans h

theorem decode_encode (t : Text) : decode (encode t) = .ok t := by
  rw [decode,scan_encode]
  induction t with
  | nil => rfl
  | cons c t ih =>
    rw [List.map_cons,List.mapM_cons,ih]
    rfl

theorem decodeLenient_encode (t : Text) : decodeLenient (encode t) = t := by
  rw [decodeLenient,scan_encode,List.map_map]
  exact List.map_id t

theorem eq_map_ok_of_mapM {found : List (Except Fault Char)} {t : Text}
    (h : found.mapM id = .ok t) : found = t.map .ok := by
  induction found generalizing t with
  | nil =>
    cases h
    rfl
  | cons x found ih =>
    rw [List.mapM_cons] at h
    cases x with
    | error fault => cases h
    | ok c =>
      cases hm : found.mapM id with
      | error fault =>
        rw [hm] at h
        cases h
      | ok r =>
        rw [hm] at h
        cases h
        rw [ih hm,List.map_cons]

/-- Bytes that can be read strictly are read leniently to the same text. -/
theorem decodeLenient_of_decode {bytes : Bytes} {t : Text} (h : decode bytes = .ok t) :
    decodeLenient bytes = t := by
  rw [decodeLenient,eq_map_ok_of_mapM h,List.map_map]
  exact List.map_id t

end FormatEdits.Text.Utf8
