import BundlePacker.Descriptor.Basic
import BundlePacker.Proofs.Json.Indentation

/-!
# The layout of a descriptor

A descriptor is written as an object that is indented by four blanks for each open bracket.  How its
text falls into lines is decided by its shape: how many artifacts it has, how many variants each of
them, and how many triples each of those.  The main statement says so for the text as it is stored,
and that names, versions and paths can not break it, whatever characters they have.
-/

namespace BundlePacker

open Json (Document closeCurly enclosed indentation lineFeed linesOf openCurly Scan)

namespace Descriptor

/-- The numbers of triples of the variants of each artifact. -/
def shape (descriptor : Descriptor) : List (List Nat) :=
  descriptor.artifacts.toList.map fun pair =>
    pair.2.variants.map fun variant => variant.supportedTriples.length

/-- The depths of the lines of a variant with some number of triples. -/
def variantDepths (triples : Nat) : List Nat :=
  enclosed 4 (5 :: enclosed 5 (List.replicate triples 6))

/-- The depths of the lines of an artifact with some variants. -/
def artifactDepths (variants : List Nat) : List Nat :=
  enclosed 2 (3 :: 3 :: enclosed 3 (variants.flatMap variantDepths))

/-- The depths of the lines of a descriptor of some shape. -/
def lineDepths (shape : List (List Nat)) : List Nat :=
  enclosed 0 (1 :: enclosed 1 (shape.flatMap artifactDepths))

end Descriptor

theorem Variant.depths_toJson (variant : Variant) :
    variant.toJson.depths 4 = Descriptor.variantDepths variant.supportedTriples.length := by
  have triples : Document.itemDepths 6
      (variant.supportedTriples.map fun triple => .text triple.name) =
        List.replicate variant.supportedTriples.length 6 := by
    rw [Document.itemDepths_map]
    simp [Document.depths, List.flatMap_def, List.map_const']
  simp [toJson, Document.depths, Document.memberDepths, triples, Descriptor.variantDepths]

theorem Artifact.depths_toJson (artifact : Artifact) :
    artifact.toJson.depths 2 =
      Descriptor.artifactDepths
        (artifact.variants.map fun variant => variant.supportedTriples.length) := by
  have variants : Document.itemDepths 4 (artifact.variants.map Variant.toJson) =
      (artifact.variants.map fun variant => variant.supportedTriples.length).flatMap
        Descriptor.variantDepths := by
    rw [Document.itemDepths_map, List.flatMap_map]
    simp only [Variant.depths_toJson]
  simp [toJson, Document.depths, Document.memberDepths, variants, Descriptor.artifactDepths]

namespace Descriptor

/-- The lines of a descriptor are as deep as its shape says. -/
theorem depths_toJson (descriptor : Descriptor) :
    descriptor.toJson.depths 0 = lineDepths descriptor.shape := by
  have artifacts : Document.memberDepths 2
      (descriptor.artifacts.toList.map fun pair => (pair.1, pair.2.toJson)) =
        descriptor.shape.flatMap artifactDepths := by
    rw [Document.memberDepths_map, shape, List.flatMap_map]
    simp only [Artifact.depths_toJson]
  simp [toJson, Document.depths, Document.memberDepths, artifacts, lineDepths]

/--
The text of a descriptor is well-formed and has no control character but the line feeds between its
lines.  A scan finds every line indented by four blanks for each open bracket; the first line opens
the outer object, the last one closes it, and every other line is deeper.  Descriptors of one shape
have lines of the same depths, whatever their names, versions and paths are.
-/
theorem layout_render (descriptor : Descriptor) :
    Utf8.toString? (Utf8.ofString descriptor.render) = some descriptor.render ∧
    (∀ byte ∈ Utf8.ofString descriptor.render, byte < 0x20 → byte = lineFeed) ∧
    (Utf8.ofString descriptor.render).getLast? ≠ some lineFeed ∧
    (∀ before line rest, linesOf (Utf8.ofString descriptor.render) = before ++ line :: rest →
      (Scan.start.afterLines before).Places line) ∧
    (∃ middle, linesOf (Utf8.ofString descriptor.render) =
        [openCurly] :: (middle ++ [[closeCurly]]) ∧
      ∀ line ∈ middle, 4 ≤ indentation line) ∧
    ∀ other : Descriptor, other.shape = descriptor.shape →
      (linesOf (Utf8.ofString other.render)).map indentation =
        (linesOf (Utf8.ofString descriptor.render)).map indentation := by
  have enclosing := Document.linesOf_render_object
    ("schemaVersion", .text descriptor.schemaVersion)
    [("artifacts", .object (descriptor.artifacts.toList.map fun pair => (pair.1, pair.2.toJson)))]
  refine ⟨Utf8.toString?_ofString _, ?_, ?_, Document.placesAll_render descriptor.toJson,
    enclosing, ?_⟩
  · intro byte member control
    rw [render, Document.ofString_render] at member
    exact Json.eq_lineFeed_of_mem (Document.indented_document descriptor.toJson).tidy member control
  · intro feed
    -- A text that ends in a line feed has an empty last line, and this one has not.
    rcases List.getLast?_eq_some_iff.mp feed with ⟨start, shape⟩
    rcases enclosing with ⟨middle, lines, -⟩
    have split : linesOf (Utf8.ofString descriptor.render) = linesOf start ++ [[]] := by
      rw [shape]
      exact List.splitOn_append_cons_self start []
    have last := congrArg List.getLast? (split.symm.trans lines)
    rw [List.getLast?_concat, ← List.cons_append, List.getLast?_concat] at last
    cases last
  · intro other same
    rw [render, render, Document.map_indentation_render, Document.map_indentation_render,
      depths_toJson, depths_toJson, same]

/-- Two descriptors of one shape, of which one has quotes, brackets and line breaks in its texts. -/
def plainTexts : Descriptor :=
  ⟨"1", artifactsOf [("a", ⟨"2", .executable, [⟨"b", []⟩]⟩)]⟩

def hostileTexts : Descriptor :=
  ⟨"[\n\"", artifactsOf [("\x7b\n,", ⟨"]\n\\\"]", .executable, [⟨"\x7d,\n\x7d", []⟩]⟩)]⟩

theorem layout_render_hostileTexts :
    hostileTexts.shape = plainTexts.shape ∧
      (linesOf (Utf8.ofString hostileTexts.render)).map indentation =
        (linesOf (Utf8.ofString plainTexts.render)).map indentation := by
  have same : hostileTexts.shape = plainTexts.shape := by
    decide
  exact ⟨same, (layout_render plainTexts).2.2.2.2.2 hostileTexts same⟩

end Descriptor

end BundlePacker
