/-
Conditionals.Proofs.Text.Utf8 — what is written in UTF-8 is read again.

* `Text.utf8` — the bytes of a text, those of each character by themselves;
* `Encoding.decodeUtf8_utf8EncodeChar` — the bytes of one character in front
  of any others are read as that character;
* `Encoding.decode_utf8` — the bytes of a text are read as the text.

The lengths of a character's bytes are told apart by its code point, and the
ranges that `Encoding.lead?` gives the second byte are met because no shorter
form would do.
-/
import Conditionals.Text.Encoding
import Mathlib.Data.Option.Basic

namespace Conditionals.Text

/-- The bytes of a text. -/
def utf8 (text : String) : List UInt8 :=
  text.toUTF8.data.toList

/-- Each character is written by itself. -/
theorem utf8_ofList (cs : List Char) : utf8 (.ofList cs) = cs.flatMap String.utf8EncodeChar := by
  rw [utf8, String.toUTF8_eq_toByteArray, String.toByteArray_ofList, List.utf8Encode,
    List.toList_data_toByteArray]

namespace Encoding

variable {b : UInt8} {rest : List UInt8} {lead : Lead} {c : Char}

/-! ## One byte -/

theorem scalar?_toNat (c : Char) : scalar? c.toNat = some c := by
  have hvalid : c.toNat.isValidChar := c.valid
  rw [scalar?, if_pos hvalid, Char.ofNat_toNat]

/-- A character of one byte. -/
theorem decodeUtf8_single (hlead : lead? b.toNat = some lead) (howed : lead.owed = 0)
    (hc : scalar? lead.bits = some c) :
    decodeUtf8 none (b :: rest) = (decodeUtf8 none rest).map (Decoded.cons c) := by
  simp only [decodeUtf8, hlead, howed, hc, Option.bind_eq_bind, Option.bind_some, if_true]
  cases decodeUtf8 none rest <;> rfl

/-- The first of several bytes. -/
theorem decodeUtf8_first (hlead : lead? b.toNat = some lead) (howed : lead.owed ≠ 0) :
    decodeUtf8 none (b :: rest) = decodeUtf8 (some lead) rest := by
  simp only [decodeUtf8, hlead, howed, Option.bind_eq_bind, Option.bind_some, if_false]

/-- A byte with others behind it. -/
theorem decodeUtf8_next (hrange : lead.low ≤ b.toNat ∧ b.toNat ≤ lead.high) (howed : 1 < lead.owed) :
    decodeUtf8 (some lead) (b :: rest) =
      decodeUtf8 (some ⟨lead.bits * 64 + (b.toNat - 0x80), lead.owed - 1, 0x80, 0xBF⟩) rest := by
  rw [decodeUtf8, (Option.guard_eq_some' ()).2 hrange]
  simp only [if_neg (Nat.not_le.2 howed), Option.bind_eq_bind, Option.bind_some]

/-- The last byte. -/
theorem decodeUtf8_last (hrange : lead.low ≤ b.toNat ∧ b.toNat ≤ lead.high) (howed : lead.owed ≤ 1)
    (hc : scalar? (lead.bits * 64 + (b.toNat - 0x80)) = some c) :
    decodeUtf8 (some lead) (b :: rest) = (decodeUtf8 none rest).map (Decoded.cons c) := by
  rw [decodeUtf8, (Option.guard_eq_some' ()).2 hrange]
  simp only [if_pos howed, hc, Option.bind_eq_bind, Option.bind_some]
  cases decodeUtf8 none rest <;> rfl

/-! ## Leads -/

theorem lead?_of_two {n : Nat} (hlow : 0xC2 ≤ n) (hhigh : n < 0xE0) :
    lead? n = some ⟨n - 0xC0, 1, 0x80, 0xBF⟩ := by
  rw [lead?, if_neg (by omega), if_neg (by omega), if_pos (by omega)]

/-- Behind E0 the second byte is at least A0. -/
theorem lead?_of_three {n next : Nat} (hlow : 0xE0 ≤ n) (hhigh : n < 0xF0)
    (hnext : 0x80 ≤ next ∧ next ≤ 0xBF) (hleast : n = 0xE0 → 0xA0 ≤ next) :
    ∃ low high, lead? n = some ⟨n - 0xE0, 2, low, high⟩ ∧ low ≤ next ∧ next ≤ high := by
  by_cases he0 : n = 0xE0
  · subst he0
    exact ⟨0xA0, 0xBF, rfl, hleast rfl, hnext.2⟩
  · refine ⟨0x80, 0xBF, ?_, hnext⟩
    rw [lead?, if_neg (by omega), if_neg (by omega), if_neg (by omega), if_neg he0,
      if_pos (by omega)]

/-- Behind F0 the second byte is at least 90, behind F4 it is at most 8F. -/
theorem lead?_of_four {n next : Nat} (hlow : 0xF0 ≤ n) (hhigh : n ≤ 0xF4)
    (hnext : 0x80 ≤ next ∧ next ≤ 0xBF) (hleast : n = 0xF0 → 0x90 ≤ next)
    (hmost : n = 0xF4 → next ≤ 0x8F) :
    ∃ low high, lead? n = some ⟨n - 0xF0, 3, low, high⟩ ∧ low ≤ next ∧ next ≤ high := by
  by_cases hf0 : n = 0xF0
  · subst hf0
    exact ⟨0x90, 0xBF, rfl, hleast rfl, hnext.2⟩
  · by_cases hf4 : n = 0xF4
    · subst hf4
      exact ⟨0x80, 0x8F, rfl, hnext.1, hmost rfl⟩
    · refine ⟨0x80, 0xBF, ?_, hnext⟩
      rw [lead?, if_neg (by omega), if_neg (by omega), if_neg (by omega), if_neg (by omega),
        if_neg (by omega), if_neg hf0, if_pos (by omega)]

/-! ## Characters -/

section characters

variable {n : Nat}

theorem toNat_ofNat (h : n < 256) : (UInt8.ofNat n).toNat = n := by
  rw [UInt8.toNat_ofNat', Nat.mod_eq_of_lt h]

theorem decodeUtf8_one (hn : n ≤ 0x7F) (hc : scalar? n = some c) :
    decodeUtf8 none (.ofNat n :: rest) = (decodeUtf8 none rest).map (Decoded.cons c) := by
  have hlead : lead? (UInt8.ofNat n).toNat = some ⟨n, 0, 0x80, 0xBF⟩ := by
    rw [toNat_ofNat (by omega), lead?, if_pos (by omega)]
  exact decodeUtf8_single hlead rfl hc

theorem decodeUtf8_two (hlow : 0x7F < n) (hhigh : n ≤ 0x7FF) (hc : scalar? n = some c) :
    decodeUtf8 none (.ofNat (n / 64 % 32 + 192) :: .ofNat (n % 64 + 128) :: rest) =
      (decodeUtf8 none rest).map (Decoded.cons c) := by
  have hfirst := @toNat_ofNat (n / 64 % 32 + 192) (by omega)
  have hlast := @toNat_ofNat (n % 64 + 128) (by omega)
  have hlead := @lead?_of_two (n / 64 % 32 + 192) (by omega) (by omega)
  rw [← hfirst] at hlead
  have hbits : (n / 64 % 32 + 192 - 0xC0) * 64 + (n % 64 + 128 - 0x80) = n := by omega
  rw [decodeUtf8_first hlead (show 1 ≠ 0 by decide)]
  refine decodeUtf8_last ?_ (Nat.le_refl 1) ?_
  · dsimp only
    omega
  · rw [hfirst, hlast, hbits]
    exact hc

theorem decodeUtf8_three (hlow : 0x7FF < n) (hhigh : n ≤ 0xFFFF) (hc : scalar? n = some c) :
    decodeUtf8 none (.ofNat (n / 4096 % 16 + 224) :: .ofNat (n / 64 % 64 + 128) ::
        .ofNat (n % 64 + 128) :: rest) =
      (decodeUtf8 none rest).map (Decoded.cons c) := by
  have hfirst := @toNat_ofNat (n / 4096 % 16 + 224) (by omega)
  have hnext := @toNat_ofNat (n / 64 % 64 + 128) (by omega)
  have hlast := @toNat_ofNat (n % 64 + 128) (by omega)
  obtain ⟨low, high, hlead, hrange⟩ := @lead?_of_three (n / 4096 % 16 + 224) (n / 64 % 64 + 128)
    (by omega) (by omega) (by omega) (by omega)
  rw [← hfirst] at hlead
  have hbits : ((n / 4096 % 16 + 224 - 0xE0) * 64 + (n / 64 % 64 + 128 - 0x80)) * 64 +
      (n % 64 + 128 - 0x80) = n := by omega
  rw [← hnext] at hrange
  rw [decodeUtf8_first hlead (show 2 ≠ 0 by decide),
    decodeUtf8_next hrange (show 1 < 2 by decide)]
  refine decodeUtf8_last ?_ (Nat.le_refl 1) ?_
  · dsimp only
    omega
  · rw [hfirst, hnext, hlast, hbits]
    exact hc

theorem decodeUtf8_four (hlow : 0xFFFF < n) (hhigh : n < 0x110000) (hc : scalar? n = some c) :
    decodeUtf8 none (.ofNat (n / 262144 % 8 + 240) :: .ofNat (n / 4096 % 64 + 128) ::
        .ofNat (n / 64 % 64 + 128) :: .ofNat (n % 64 + 128) :: rest) =
      (decodeUtf8 none rest).map (Decoded.cons c) := by
  have hfirst := @toNat_ofNat (n / 262144 % 8 + 240) (by omega)
  have hsecond := @toNat_ofNat (n / 4096 % 64 + 128) (by omega)
  have hthird := @toNat_ofNat (n / 64 % 64 + 128) (by omega)
  have hlast := @toNat_ofNat (n % 64 + 128) (by omega)
  obtain ⟨low, high, hlead, hrange⟩ := @lead?_of_four (n / 262144 % 8 + 240)
    (n / 4096 % 64 + 128) (by omega) (by omega) (by omega) (by omega) (by omega)
  rw [← hfirst] at hlead
  have hbits : (((n / 262144 % 8 + 240 - 0xF0) * 64 + (n / 4096 % 64 + 128 - 0x80)) * 64 +
      (n / 64 % 64 + 128 - 0x80)) * 64 + (n % 64 + 128 - 0x80) = n := by omega
  rw [← hsecond] at hrange
  rw [decodeUtf8_first hlead (show 3 ≠ 0 by decide),
    decodeUtf8_next hrange (show 1 < 3 by decide), decodeUtf8_next ?_ (show 1 < 2 by decide)]
  · refine decodeUtf8_last ?_ (Nat.le_refl 1) ?_
    · dsimp only
      omega
    · rw [hfirst, hsecond, hthird, hlast, hbits]
      exact hc
  · dsimp only
    omega

end characters

/-- The bytes of a character are read as the character. -/
theorem decodeUtf8_utf8EncodeChar (c : Char) (rest : List UInt8) :
    decodeUtf8 none (String.utf8EncodeChar c ++ rest) =
      (decodeUtf8 none rest).map (Decoded.cons c) := by
  have hc := scalar?_toNat c
  have hval : c.val.toNat = c.toNat := rfl
  have hmost : c.toNat < 0x110000 := by
    have hvalid : c.toNat.isValidChar := c.valid
    unfold Nat.isValidChar at hvalid
    omega
  unfold String.utf8EncodeChar
  rw [hval]
  dsimp only
  split
  next hone => exact decodeUtf8_one hone hc
  next hone =>
    split
    next htwo => exact decodeUtf8_two (Nat.not_le.1 hone) htwo hc
    next htwo =>
      split
      next hthree => exact decodeUtf8_three (Nat.not_le.1 htwo) hthree hc
      next hthree => exact decodeUtf8_four (Nat.not_le.1 hthree) hmost hc

/-- The bytes of a text are read as the text. -/
theorem decode_utf8 (text : String) :
    utf8.decode (Text.utf8 text) = some ⟨text.toList, false⟩ := by
  have hchars : ∀ cs : List Char,
      decodeUtf8 none (cs.flatMap String.utf8EncodeChar) = some ⟨cs, false⟩ := by
    intro cs
    induction cs with
    | nil => rfl
    | cons c cs ih =>
      rw [List.flatMap_cons, decodeUtf8_utf8EncodeChar, ih]
      rfl
  rw [decode, ← hchars, ← utf8_ofList, String.ofList_toList]

end Encoding

end Conditionals.Text
