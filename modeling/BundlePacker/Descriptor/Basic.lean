import Std.Data.ExtTreeMap
import BundlePacker.Json.Value
import BundlePacker.Platform

/-!
# Descriptors

A bundle describes itself in a descriptor: the version of the schema, and the artifacts by name,
each with its version, its kind and its variants.  Artifacts are kept in a map, so that a descriptor
does not depend on the order in which they were added, and lists them by ascending name.
-/

namespace BundlePacker

/-- What an artifact is. -/
inductive ArtifactKind where
  | executable
deriving DecidableEq

/-- The word for a kind in descriptors. -/
def ArtifactKind.name : ArtifactKind → String
  | executable => "executable"

/-- One build of an artifact. -/
structure Variant where
  /-- Where the build lies in the bundle. -/
  path : String
  /-- The platforms that the build runs on. -/
  supportedTriples : List Triple
deriving DecidableEq

/-- A thing that a bundle carries. -/
structure Artifact where
  version : String
  kind : ArtifactKind
  variants : List Variant
deriving DecidableEq

/-- What a bundle says about itself. -/
structure Descriptor where
  schemaVersion : String
  artifacts : Std.ExtTreeMap String Artifact
deriving DecidableEq

namespace Variant

/-- A variant as JSON. -/
def toJson (variant : Variant) : Json.Document :=
  .object
    [("path", .text variant.path),
      ("supportedTriples", .list (variant.supportedTriples.map fun triple => .text triple.name))]

/-- A variant as it is given to a printer. -/
def toValue (variant : Variant) : Json.Value :=
  .record
    [("path", .text variant.path),
      ("supportedTriples", .list (variant.supportedTriples.map fun triple => .text triple.name))]

theorem document?_toValue (variant : Variant) : variant.toValue.document? = .ok variant.toJson := by
  have triples := Json.Value.documents?_map
    (fun triple : Triple => (rfl : (Json.Value.text triple.name).document? = .ok _))
    variant.supportedTriples
  simp [toValue, toJson, Json.Value.document?, Json.Value.fieldMembers?, triples, Bind.bind,
    Except.bind]

end Variant

namespace Artifact

/-- An artifact as JSON. -/
def toJson (artifact : Artifact) : Json.Document :=
  .object
    [("version", .text artifact.version),
      ("type", .text artifact.kind.name),
      ("variants", .list (artifact.variants.map Variant.toJson))]

/-- An artifact as it is given to a printer. -/
def toValue (artifact : Artifact) : Json.Value :=
  .record
    [("version", .text artifact.version),
      ("type", .text artifact.kind.name),
      ("variants", .list (artifact.variants.map Variant.toValue))]

theorem document?_toValue (artifact : Artifact) :
    artifact.toValue.document? = .ok artifact.toJson := by
  have variants := Json.Value.documents?_map Variant.document?_toValue artifact.variants
  simp [toValue, toJson, Json.Value.document?, Json.Value.fieldMembers?, variants, Bind.bind,
    Except.bind]

end Artifact

namespace Descriptor

/-- The version of the schema that this library writes. -/
def currentSchema : String :=
  "1.0"

/-- The name of the one artifact of every bundle. -/
def artifactName : String :=
  "sur"

/-- Where the executable lies in a bundle. -/
def executablePath : String :=
  "bin/sur"

/-- Where the descriptor lies in a bundle. -/
def fileName : String :=
  "info.json"

/-- The descriptor of a bundle with one executable for every platform. -/
def forExecutable (version : String) : Descriptor where
  schemaVersion := currentSchema
  artifacts :=
    (∅ : Std.ExtTreeMap String Artifact).insert artifactName
      { version
        kind := .executable
        variants := [{ path := executablePath, supportedTriples := Triple.supported }] }

/-- The map of artifacts that adding them one after the other gives: a later one replaces an
earlier one of the same name. -/
def artifactsOf (artifacts : List (String × Artifact)) : Std.ExtTreeMap String Artifact :=
  artifacts.foldl (fun map pair => map.insert pair.1 pair.2) ∅

/-- A descriptor as JSON. -/
def toJson (descriptor : Descriptor) : Json.Document :=
  .object
    [("schemaVersion", .text descriptor.schemaVersion),
      ("artifacts",
        .object (descriptor.artifacts.toList.map fun pair => (pair.1, pair.2.toJson)))]

/-- The text of a descriptor, as it is stored in a bundle. -/
def render (descriptor : Descriptor) : String :=
  descriptor.toJson.render .indented

/-- A descriptor as it is given to a printer. -/
def toValue (descriptor : Descriptor) : Json.Value :=
  .record
    [("schemaVersion", .text descriptor.schemaVersion),
      ("artifacts",
        .map (descriptor.artifacts.toList.map fun pair => (.text pair.1, pair.2.toValue)))]

/-- Print a descriptor: the bytes that are stored in a bundle. -/
def encode (descriptor : Descriptor) : Except Json.ReadError Bytes := do
  let document ← descriptor.toValue.document?
  .ok (Utf8.ofString (document.render .indented))

theorem document?_toValue (descriptor : Descriptor) :
    descriptor.toValue.document? = .ok descriptor.toJson := by
  have artifacts := @Json.Value.pairMembers?_map (String × Artifact) Prod.fst _ _
    (fun pair => pair.2.document?_toValue) descriptor.artifacts.toList
  simp [toValue, toJson, Json.Value.document?, Json.Value.fieldMembers?, artifacts, Bind.bind,
    Except.bind]

/-- Every descriptor can be printed, because its artifacts are called by texts. -/
theorem encode_eq (descriptor : Descriptor) :
    descriptor.encode = .ok (Utf8.ofString descriptor.render) := by
  rw [encode, document?_toValue]
  rfl

end Descriptor

end BundlePacker
