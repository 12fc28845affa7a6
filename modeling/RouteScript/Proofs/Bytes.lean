import Mathlib.Data.List.Lex
import Mathlib.Order.Defs.LinearOrder
/-!
# The order of names

Names are compared code point by code point. That is also the order of their bytes in UTF-8: the
first byte of a longer form is greater, and forms of one length list the digits of the code point.
-/
namespace RouteScript.Text

/-- The bytes of a text in UTF-8. -/
def bytes (s : String) : List UInt8 := s.toUTF8.data.toList

theorem bytes_eq (s : String) : bytes s = s.toList.flatMap String.utf8EncodeChar := by
  have encoded : s.toUTF8 = s.toList.utf8Encode := (String.utf8Encode_toList).symm
  rw [bytes, encoded, List.utf8Encode]
  simp

theorem ofNat_lt_ofNat {m n : Nat} (bound : n < 256) (less : m < n) :
    UInt8.ofNat m < UInt8.ofNat n := by
  rw [UInt8.lt_iff_toNat_lt, UInt8.toNat_ofNat', UInt8.toNat_ofNat']
  omega

/-- Of two lists of digits the one with the lower first digit that differs comes first. -/
theorem digit_append_lt {m n : Nat} {l l' : List UInt8} (bound : n < 256) (le : m ≤ n)
    (behind : m = n → l < l') : UInt8.ofNat m :: l < UInt8.ofNat n :: l' := by
  rw [List.cons_lt_cons_iff]
  rcases Nat.lt_or_eq_of_le le with less | rfl
  · exact .inl (ofNat_lt_ofNat bound less)
  · exact .inr ⟨rfl, behind rfl⟩

theorem utf8EncodeChar_append_lt {c d : Char} (less : c < d) (l l' : List UInt8) :
    String.utf8EncodeChar c ++ l < String.utf8EncodeChar d ++ l' := by
  have below : c.val.toNat < d.val.toNat := less
  have top : d.val.toNat < 0x110000 := by
    rcases d.valid with low | high
    · exact Nat.lt_trans low (by decide)
    · exact high.2
  unfold String.utf8EncodeChar
  generalize c.val.toNat = m at below
  generalize d.val.toNat = n at below top
  dsimp only
  -- either form has one to four bytes: of two lengths the first bytes decide, of one length the
  -- first digit in which the code points differ
  split_ifs <;> simp only [List.cons_append, List.nil_append] <;>
    repeat' first
      | omega
      | refine digit_append_lt (by omega) (by omega) fun same => ?_

theorem flatMap_utf8EncodeChar_lt {l l' : List Char} (less : l < l') :
    l.flatMap String.utf8EncodeChar < l'.flatMap String.utf8EncodeChar := by
  induction l generalizing l' with
  | nil =>
    cases l' with
    | nil => exact absurd less (List.not_lt_nil _)
    | cons d l' =>
      rw [List.flatMap_nil, List.flatMap_cons]
      cases encoded : String.utf8EncodeChar d with
      | nil => exact absurd encoded String.utf8EncodeChar_ne_nil
      | cons b bs => exact List.nil_lt_cons _ _
  | cons c l ih =>
    cases l' with
    | nil => exact absurd less (List.not_lt_nil _)
    | cons d l' =>
      rw [List.flatMap_cons, List.flatMap_cons]
      rcases List.cons_lt_cons_iff.1 less with lower | ⟨rfl, behind⟩
      · exact utf8EncodeChar_append_lt lower _ _
      · exact List.append_left_lt (ih behind)

theorem bytes_le_iff (s t : String) : bytes s ≤ bytes t ↔ s ≤ t := by
  have onward {s t : String} (less : s < t) : bytes s < bytes t := by
    rw [bytes_eq, bytes_eq]
    exact flatMap_utf8EncodeChar_lt less
  constructor
  · exact fun le => String.not_lt.1 fun less => absurd (onward less) (List.not_lt.2 le)
  · intro le
    rcases eq_or_ne s t with rfl | other
    · exact List.le_refl _
    · have less : s < t := Decidable.byContradiction fun h =>
        other (String.le_antisymm le (String.not_lt.1 h))
      exact List.le_of_lt (onward less)

end RouteScript.Text
