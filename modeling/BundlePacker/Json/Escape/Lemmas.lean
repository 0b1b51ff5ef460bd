import BundlePacker.Json.Document
import BundlePacker.Json.Escape
import BundlePacker.Text.Utf8.Lemmas

/-!
# Texts between quotes are read back

The printer escapes what would end a text or could not stand in it, and the reader undoes just that.
The main statement says that a text that has been written between quotes is read back whole, and
that the reader stops right after its closing quote.
-/

namespace BundlePacker.Json

/-- Whether a byte stands for itself between quotes. -/
def IsPlain (byte : UInt8) : Prop :=
  byte ≠ quote ∧ byte ≠ backslash ∧ ¬ byte < 0x20

theorem readContent_quote (escape : Reader Bytes) (rest : Bytes) :
    readContent escape (quote :: rest) = .ok ([], rest) := by
  rw [readContent]
  simp

theorem readContent_plain {escape : Reader Bytes} {byte : UInt8} {input content rest : Bytes}
    (plain : IsPlain byte) (reads : readContent escape input = .ok (content, rest)) :
    readContent escape (byte :: input) = .ok (byte :: content, rest) := by
  obtain ⟨no_quote, no_backslash, no_control⟩ := plain
  rw [readContent]
  simp [no_quote, no_backslash, no_control, reads]

theorem readContent_plain_append {escape : Reader Bytes} {bytes input content rest : Bytes}
    (plain : ∀ byte ∈ bytes, IsPlain byte)
    (reads : readContent escape input = .ok (content, rest)) :
    readContent escape (bytes ++ input) = .ok (bytes ++ content, rest) := by
  induction bytes with
  | nil => exact reads
  | cons byte others hypothesis =>
    exact readContent_plain (plain byte (List.mem_cons_self ..))
      (hypothesis fun other member => plain other (List.mem_cons_of_mem _ member))

theorem readContent_backslash {escape : Reader Bytes} {input decoded after content rest : Bytes}
    (found : escape.run input = .ok (decoded, after))
    (reads : readContent escape after = .ok (content, rest)) :
    readContent escape (backslash :: input) = .ok (decoded ++ content, rest) := by
  rw [readContent]
  have differs : backslash ≠ quote := by decide
  simp only [differs, if_false, if_true]
  split
  · next failed => rw [found] at failed; cases failed
  · next again =>
    rw [found] at again
    cases again
    simp [reads]

/-! ## One character -/

theorem isPlain_ofNat {value : Nat} (small : value < 256) (no_quote : value ≠ 0x22)
    (no_backslash : value ≠ 0x5C) (no_control : ¬ value < 0x20) : IsPlain (UInt8.ofNat value) := by
  have number := Utf8.toNat_byte small
  refine ⟨fun same => no_quote ?_, fun same => no_backslash ?_, fun less => no_control ?_⟩
  · rw [← number, same]
    rfl
  · rw [← number, same]
    rfl
  · rw [← number]
    exact UInt8.lt_iff_toNat_lt.mp less

/-- All bytes of a character that is not escaped stand for themselves. -/
theorem isPlain_of_mem_encodeChar {character : Char} (no_quote : character.toNat ≠ 0x22)
    (no_backslash : character.toNat ≠ 0x5C) (no_control : ¬ character.toNat < 0x20) :
    ∀ byte ∈ Utf8.encodeChar character, IsPlain byte := by
  have range := Utf8.toNat_range character
  intro byte member
  simp only [Utf8.encodeChar] at member
  split at member
  · rw [List.mem_singleton] at member
    subst member
    exact isPlain_ofNat (by omega) no_quote no_backslash no_control
  · split at member
    · simp only [List.mem_cons, List.not_mem_nil, or_false] at member
      rcases member with rfl | rfl <;>
        exact isPlain_ofNat (by omega) (by omega) (by omega) (by omega)
    · split at member
      · simp only [List.mem_cons, List.not_mem_nil, or_false] at member
        rcases member with rfl | rfl | rfl <;>
          exact isPlain_ofNat (by omega) (by omega) (by omega) (by omega)
      · simp only [List.mem_cons, List.not_mem_nil, or_false] at member
        rcases member with rfl | rfl | rfl | rfl <;>
          exact isPlain_ofNat (by omega) (by omega) (by omega) (by omega)

/-- The digits that are written for a control character are read as its code. -/
theorem hexCode?_hexDigit : ∀ code : Fin 32,
    hexCode? 0x30 0x30 (UInt8.ofNat (hexDigit (code / 16)).toNat)
      (UInt8.ofNat (hexDigit (code % 16)).toNat) = some code := by
  decide

/-- What is written for a control character without a letter of its own, as bytes. -/
theorem encode_hexDigits : ∀ code : Fin 32,
    Utf8.encode ['\\', 'u', '0', '0', hexDigit (code / 16), hexDigit (code % 16)] =
      [backslash, codeLetter, 0x30, 0x30, UInt8.ofNat (hexDigit (code / 16)).toNat,
        UInt8.ofNat (hexDigit (code % 16)).toNat] := by
  decide

theorem escape_run_letter {letter byte : UInt8} (stands : letterEscape? letter = some byte)
    (rest : Bytes) : escape.run (letter :: rest) = .ok ([byte], rest) := by
  simp [escape, readEscape, stands]

theorem escape_run_hexDigits (code : Fin 32) (rest : Bytes) :
    escape.run (codeLetter :: 0x30 :: 0x30 :: UInt8.ofNat (hexDigit (code / 16)).toNat ::
        UInt8.ofNat (hexDigit (code % 16)).toNat :: rest) =
      .ok (Utf8.encodeChar (Char.ofNat code), rest) := by
  have small := code.isLt
  have no_letter : letterEscape? codeLetter = none := by decide
  have no_low : isLowSurrogate code = false := by simp [isLowSurrogate]; omega
  have no_high : isHighSurrogate code = false := by simp [isHighSurrogate]; omega
  simp [escape, readEscape, no_letter, readCodeEscape, readCode, hexCode?_hexDigit, no_low, no_high]

/-- A character as it is written between quotes is read back. -/
theorem readContent_escaped (character : Char) {input content rest : Bytes}
    (reads : readContent escape input = .ok (content, rest)) :
    readContent escape (Utf8.encode (escaped character) ++ input) =
      .ok (Utf8.encodeChar character ++ content, rest) := by
  unfold escaped
  split
  · exact readContent_backslash (@escape_run_letter _ quote rfl _) reads
  · exact readContent_backslash (@escape_run_letter _ backslash rfl _) reads
  · exact readContent_backslash (@escape_run_letter _ 0x08 rfl _) reads
  · exact readContent_backslash (@escape_run_letter _ 0x0C rfl _) reads
  · exact readContent_backslash (@escape_run_letter _ 0x0A rfl _) reads
  · exact readContent_backslash (@escape_run_letter _ 0x0D rfl _) reads
  · exact readContent_backslash (@escape_run_letter _ 0x09 rfl _) reads
  · next no_quote no_backslash _ _ _ _ _ =>
    split
    · next control =>
      have written := encode_hexDigits ⟨character.toNat, control⟩
      rw [written]
      have reread := escape_run_hexDigits ⟨character.toNat, control⟩ input
      have whole : Char.ofNat character.toNat = character := Char.ofNat_toNat character
      rw [whole] at reread
      exact readContent_backslash reread reads
    · next no_control =>
      rw [Utf8.encode_cons, Utf8.encode_nil, List.append_nil]
      exact readContent_plain_append
        (isPlain_of_mem_encodeChar (fun same => no_quote (Char.ext (UInt32.toNat_inj.mp same)))
          (fun same => no_backslash (Char.ext (UInt32.toNat_inj.mp same))) no_control) reads

/-! ## Whole texts -/

theorem readContent_flatMap_escaped (characters : List Char) (rest : Bytes) :
    readContent escape (Utf8.encode (characters.flatMap escaped) ++ quote :: rest) =
      .ok (Utf8.encode characters, rest) := by
  induction characters with
  | nil => exact readContent_quote escape rest
  | cons character others hypothesis =>
    rw [List.flatMap_cons, Utf8.encode_append, List.append_assoc, Utf8.encode_cons]
    exact readContent_escaped character hypothesis

/-- A text that has been written between quotes is read back, up to its closing quote. -/
theorem content_run_quoted (text : String) (rest : Bytes) :
    ∃ written, Utf8.encode (quoted text) = quote :: written ∧
      content.run (written ++ rest) = .ok (text, rest) := by
  refine ⟨Utf8.encode (text.toList.flatMap escaped) ++ [quote], ?_, ?_⟩
  · rw [quoted, List.cons_append, Utf8.encode_cons, Utf8.encode_append]
    rfl
  · have reads := readContent_flatMap_escaped text.toList rest
    have decodes : Utf8.toString? (Utf8.encode text.toList) = some text :=
      Utf8.toString?_ofString text
    simp [content, reads, decodes]

end BundlePacker.Json
