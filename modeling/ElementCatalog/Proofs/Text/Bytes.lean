import Mathlib.Data.String.Basic

/-!
# The order of texts by their bytes

Texts are compared character by character. A character is written in one to four bytes, and those of
a smaller one come first, whatever follows (`lt_of_char_lt`). So texts have the order of their bytes
(`bytes_lt_bytes_iff`).
-/

namespace ElementCatalog.Text

/-- The bytes of a text. -/
def bytes (text : String) : List UInt8 :=
  text.toByteArray.data.toList

/-- The bytes of a text are those of its characters, one after another. -/
theorem bytes_eq (text : String) : bytes text = text.toList.flatMap String.utf8EncodeChar := by
  rw [bytes, ← String.utf8Encode_toList, List.utf8Encode, List.toList_data_toByteArray]

/-- The bytes of a smaller character come first, whatever follows. -/
theorem lt_of_char_lt {c d : Char} (h : c < d) (rest rest' : List UInt8) :
    String.utf8EncodeChar c ++ rest < String.utf8EncodeChar d ++ rest' := by
  have hlt : c.val.toNat < d.val.toNat := h
  have hbound : d.val.toNat < 0x110000 := by
    rcases d.valid with hvalid | ⟨-, hvalid⟩
    · exact Nat.lt_trans hvalid (by decide)
    · exact hvalid
  rw [String.utf8EncodeChar, String.utf8EncodeChar]
  generalize c.val.toNat = m at hlt
  generalize d.val.toNat = n at hlt hbound
  -- Bytes are compared as numbers, and the mark in front of the digits fits into the byte.
  have hofNat {a b : Nat} : UInt8.ofNat a < UInt8.ofNat b ↔ a % 256 < b % 256 := by
    rw [UInt8.lt_iff_toNat_lt, UInt8.toNat_ofNat', UInt8.toNat_ofNat']
  have hofNat' {a b : Nat} : UInt8.ofNat a = UInt8.ofNat b ↔ a % 256 = b % 256 := by
    rw [← UInt8.toNat_inj, UInt8.toNat_ofNat', UInt8.toNat_ofNat']
  have hfurther (a : Nat) : (a % 64 + 128) % 256 = a % 64 + 128 := by omega
  have hfirst (a : Nat) (ha : a < 0x110000) : (a / 262144 % 8 + 240) % 256 = a / 262144 + 240 := by
    omega
  have hdigits (a : Nat) : a / 64 / 64 = a / 4096 ∧ a / 4096 / 64 = a / 262144 := by omega
  have hm := hfirst m (by omega)
  have hn := hfirst n hbound
  have hdm := hdigits m
  have hdn := hdigits n
  split <;> split <;> (repeat' split) <;>
    simp only [List.cons_append, List.nil_append, List.cons_lt_cons_iff, hofNat, hofNat',
      hfurther, hm, hn] <;> omega

/-- The bytes of a smaller list of characters come first. -/
theorem flatMap_lt_of_lt {chars chars' : List Char} (h : chars < chars') :
    chars.flatMap String.utf8EncodeChar < chars'.flatMap String.utf8EncodeChar := by
  induction chars generalizing chars' with
  | nil =>
    cases chars' with
    | nil => exact absurd h (List.lt_irrefl [])
    | cons d rest' =>
      obtain ⟨first, others, hbytes⟩ :=
        List.exists_cons_of_ne_nil (String.utf8EncodeChar_ne_nil (c := d))
      rw [List.flatMap_nil, List.flatMap_cons, hbytes]
      exact List.nil_lt_cons first _
  | cons c rest ih =>
    cases chars' with
    | nil => exact absurd h (List.not_lt_nil _)
    | cons d rest' =>
      rw [List.flatMap_cons, List.flatMap_cons]
      rcases List.cons_lt_cons_iff.1 h with hlt | ⟨rfl, hrest⟩
      · exact lt_of_char_lt hlt _ _
      · exact List.append_left_lt (ih hrest)

/-- Texts have the order of their bytes. -/
theorem bytes_lt_bytes_iff {text text' : String} : bytes text < bytes text' ↔ text < text' := by
  have hlt {a b : String} (h : a < b) : bytes a < bytes b := by
    rw [bytes_eq, bytes_eq]
    exact flatMap_lt_of_lt (String.lt_iff_toList_lt.1 h)
  refine ⟨fun h => ?_, hlt⟩
  by_contra hnot
  rcases lt_or_eq_of_le (String.not_lt.1 hnot) with hgt | rfl
  · exact List.lt_asymm h (hlt hgt)
  · exact List.lt_irrefl _ h

end ElementCatalog.Text
