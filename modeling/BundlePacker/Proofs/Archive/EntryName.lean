import Mathlib.Data.Set.List
import BundlePacker.Archive.Create
import BundlePacker.Proofs.FileSystem.Walk
import BundlePacker.Text.Utf8.Lemmas

/-!
# The names of entries

An entry is called by the path of its file below the root of the tree, with slashes between the
names.  The text is found name by name, but it exists exactly when the whole relative path is text,
because no character but the slash itself has the byte of a slash in its encoding.
-/

namespace BundlePacker

open FileSystem
open BundlePacker.Path (slash joinSegments)

/-- Whether bytes are the encoding of a text. -/
def IsText (bytes : Bytes) : Prop :=
  ∃ text, Utf8.ofString text = bytes

/-! ## Texts with slashes -/

theorem encodeChar_of_slash_mem {character : Char} (member : slash ∈ Utf8.encodeChar character) :
    Utf8.encodeChar character = [slash] := by
  have small : ∀ value, 0x80 ≤ value → value < 256 → slash ≠ UInt8.ofNat value := by
    intro value low high same
    have equal := congrArg UInt8.toNat same
    rw [Utf8.toNat_byte high] at equal
    have code : slash.toNat = 0x2F := rfl
    omega
  have range := Utf8.toNat_range character
  simp only [Utf8.encodeChar] at member ⊢
  generalize character.toNat = code at member range ⊢
  split at member
  · next whole =>
    rw [if_pos whole, List.mem_singleton.mp member]
  · exfalso
    split at member
    · simp only [List.mem_cons, List.not_mem_nil, or_false] at member
      rcases member with same | same <;> exact small _ (by omega) (by omega) same
    split at member
    · simp only [List.mem_cons, List.not_mem_nil, or_false] at member
      rcases member with same | same | same <;> exact small _ (by omega) (by omega) same
    · simp only [List.mem_cons, List.not_mem_nil, or_false] at member
      rcases member with same | same | same | same <;> exact small _ (by omega) (by omega) same

theorem isText_encode (characters : List Char) : IsText (Utf8.encode characters) :=
  ⟨String.ofList characters, by simp [Utf8.ofString]⟩

theorem IsText.append {first second : Bytes} (one : IsText first) (other : IsText second) :
    IsText (first ++ second) := by
  rcases one with ⟨text, rfl⟩
  rcases other with ⟨later, rfl⟩
  exact ⟨text ++ later, Utf8.ofString_append text later⟩

theorem isText_encodeChar (character : Char) : IsText (Utf8.encodeChar character) := by
  simpa using isText_encode [character]

theorem isText_of_encode_eq {characters : List Char} {first second : Bytes}
    (whole : Utf8.encode characters = first ++ slash :: second) :
    IsText first ∧ IsText second := by
  induction characters generalizing first with
  | nil =>
      simp at whole
  | cons character others hypothesis =>
      rw [Utf8.encode_cons, List.append_eq_append_iff] at whole
      rcases whole with ⟨more, shape, rest⟩ | ⟨more, shape, rest⟩
      · rcases hypothesis rest with ⟨before, after⟩
        rw [shape]
        exact ⟨(isText_encodeChar character).append before, after⟩
      · cases more with
        | nil =>
            rw [List.append_nil] at shape
            have bare : Utf8.encode others = [] ++ slash :: second := rest.symm
            exact ⟨shape ▸ isText_encodeChar character, (hypothesis bare).2⟩
        | cons byte later =>
            -- The slash is a byte of the character, and so it is all of it.
            rw [List.cons_append, List.cons.injEq] at rest
            rcases rest with ⟨rfl, rest⟩
            have inside : slash ∈ Utf8.encodeChar character := by simp [shape]
            have only := encodeChar_of_slash_mem inside
            rw [shape, List.append_eq_singleton_iff] at only
            rcases only with ⟨rfl, single⟩ | ⟨-, none⟩
            · rw [List.cons.injEq] at single
              rw [single.2, List.nil_append] at rest
              exact ⟨isText_encode [], rest ▸ isText_encode others⟩
            · cases none

/-- A text can be cut at a slash, and texts can be put together with one. -/
theorem isText_append_slash {first second : Bytes} :
    IsText (first ++ slash :: second) ↔ IsText first ∧ IsText second := by
  constructor
  · rintro ⟨text, whole⟩
    exact isText_of_encode_eq whole
  · rintro ⟨one, other⟩
    have between : IsText [slash] := ⟨"/", rfl⟩
    exact one.append (between.append other)

theorem isText_joinSegments {names : List Bytes} :
    IsText (joinSegments names) ↔ ∀ name ∈ names, IsText name := by
  induction names with
  | nil =>
      simpa [joinSegments] using isText_encode []
  | cons name others hypothesis =>
      by_cases last : others = []
      · simp [last, joinSegments]
      · rw [Path.joinSegments_cons name last, isText_append_slash, hypothesis]
        simp

theorem ofString_intercalate (texts : List String) :
    Utf8.ofString (String.intercalate "/" texts) = joinSegments (texts.map Utf8.ofString) := by
  induction texts with
  | nil =>
      rfl
  | cons text others hypothesis =>
      by_cases last : others = []
      · simp [last, joinSegments]
      · have between : Utf8.ofString "/" = [slash] := rfl
        rw [String.intercalate_cons_of_ne_nil last, Utf8.ofString_append, Utf8.ofString_append,
          hypothesis, between, List.map_cons, Path.joinSegments_cons _ (by simpa using last)]
        simp

/-! ## Names of files in a tree -/

namespace Archive

/-- Components have texts exactly when their bytes are those of the texts. -/
theorem componentTexts?_eq_some_iff {components : List Path.Component} {texts : List String} :
    componentTexts? components = some texts ↔
      components.map Path.Component.bytes = texts.map Utf8.ofString := by
  induction components generalizing texts with
  | nil =>
      cases texts <;> simp [componentTexts?]
  | cons component others hypothesis =>
      rw [componentTexts?, Option.bind_eq_bind, Option.bind_eq_some_iff]
      constructor
      · rintro ⟨text, reads, rest⟩
        rcases Option.bind_eq_some_iff.mp rest with ⟨later, readLater, same⟩
        cases same
        have first : component.bytes = Utf8.ofString text := Utf8.toString?_eq_some_iff.mp reads
        rw [List.map_cons, List.map_cons, hypothesis.mp readLater, ← first]
      · intro same
        cases texts with
        | nil =>
            cases same
        | cons text later =>
            rw [List.map_cons, List.map_cons, List.cons.injEq] at same
            refine ⟨text, Utf8.toString?_eq_some_iff.mpr same.1, ?_⟩
            rw [Option.bind_eq_bind, hypothesis.mpr same.2]
            rfl

theorem componentTexts?_names {names : List Name} {texts : List String} :
    componentTexts? (names.map .name) = some texts ↔ names = texts.map Utf8.ofString := by
  rw [componentTexts?_eq_some_iff, List.map_map]
  simp [Function.comp_def, Path.Component.bytes]

/-- A file in a tree is called by its relative path, when that is text. -/
theorem entryName_of_text {root : Path} (nonempty : root.bytes ≠ []) {names : List Name}
    (pieces : ∀ name ∈ names, IsSegment name) {text : String}
    (encodes : Utf8.ofString text = joinSegments names) :
    entryName root (pathBelow root names) = .ok text := by
  have each : ∀ name ∈ names, IsText name := isText_joinSegments.mp ⟨text, encodes⟩
  have texts : names ∈ Set.range (List.map Utf8.ofString) := by
    rw [Set.range_list_map]
    exact each
  rcases texts with ⟨texts, same⟩
  have whole : String.intercalate "/" texts = text := by
    apply Utf8.ofString_injective
    rw [ofString_intercalate, same, encodes]
  simp only [entryName, below?_pathBelow nonempty pieces, componentTexts?_names.mpr same.symm,
    whole]

theorem text_of_entryName {root : Path} (nonempty : root.bytes ≠ []) {names : List Name}
    (pieces : ∀ name ∈ names, IsSegment name) {text : String}
    (called : entryName root (pathBelow root names) = .ok text) :
    Utf8.ofString text = joinSegments names := by
  simp only [entryName, below?_pathBelow nonempty pieces] at called
  split at called
  · cases called
  · next texts reads =>
    cases called
    rw [ofString_intercalate, componentTexts?_names.mp reads]

end Archive

end BundlePacker
