import Mathlib.Data.String.Basic
import BundlePacker.Text.Utf8.Lemmas

/-!
# UTF-8 keeps the order of texts

Longer characters begin with larger bytes, and characters of one length are ordered by their digits
to the base sixty-four, so that of two different characters the smaller one has the smaller byte
where their bytes first differ.  Hence it is the same to compare texts by their characters and by
their bytes.
-/

namespace BundlePacker.Utf8

/-- Byte sequences are compared by the numbers of their first bytes, and then by what follows. -/
theorem cons_lt_cons_iff {first second : Nat} (small : first < 256) (smallSecond : second < 256)
    {rest other : Bytes} :
    UInt8.ofNat first :: rest < UInt8.ofNat second :: other ↔
      first < second ∨ first = second ∧ rest < other := by
  rw [List.cons_lt_cons_iff, UInt8.lt_iff_toNat_lt, ← UInt8.toNat_inj, toNat_byte small,
    toNat_byte smallSecond]

/-- The bytes of the smaller one of two characters come first, whatever follows them. -/
theorem encodeChar_append_lt {first second : Char} (less : first.toNat < second.toNat)
    (firstRest secondRest : Bytes) :
    encodeChar first ++ firstRest < encodeChar second ++ secondRest := by
  have range := toNat_range second
  unfold encodeChar
  generalize first.toNat = m at less
  generalize second.toNat = n at less range
  dsimp only
  -- Either the first bytes differ, or both characters have the same length and differ in a digit.
  repeat' split
  all_goals
    simp (disch := omega) only [List.cons_append, List.nil_append, cons_lt_cons_iff]
    omega

theorem encodeChar_ne_nil (character : Char) : encodeChar character ≠ [] := by
  simp only [encodeChar]
  split
  · exact List.cons_ne_nil _ _
  split
  · exact List.cons_ne_nil _ _
  split <;> exact List.cons_ne_nil _ _

theorem encode_lt_of_lt {first second : List Char} (less : first < second) :
    encode first < encode second := by
  induction less with
  | @nil character others =>
      rw [encode_cons]
      rcases List.exists_cons_of_ne_nil (encodeChar_ne_nil character) with ⟨byte, more, shape⟩
      rw [shape]
      exact List.nil_lt_cons ..
  | rel less =>
      rw [encode_cons, encode_cons]
      exact encodeChar_append_lt less _ _
  | cons later hypothesis =>
      rw [encode_cons, encode_cons]
      exact List.append_left_lt hypothesis

/-- Texts are ordered as their bytes. -/
theorem ofString_lt_of_lt {first second : String} (less : first < second) :
    ofString first < ofString second :=
  encode_lt_of_lt (String.lt_iff_toList_lt.mp less)

end BundlePacker.Utf8
