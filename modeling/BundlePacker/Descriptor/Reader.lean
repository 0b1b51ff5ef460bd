import BundlePacker.Descriptor.Basic
import BundlePacker.Json.Record

/-!
# Reading descriptors

Descriptors, artifacts and variants are records, kinds and platforms are known by name.  The names
of the fields are those under which the printer writes them, so that what is written can be read.
-/

namespace BundlePacker

/-- A platform. -/
def Triple.reader : Json.Reader Triple :=
  Json.oneOf (supported.map fun triple => (triple.name, triple))

/-- A kind of artifact. -/
def ArtifactKind.reader : Json.Reader ArtifactKind :=
  Json.oneOf [(executable.name, executable)]

namespace Variant

/-- What has been read of a variant. -/
structure Draft where
  path : Option String
  supportedTriples : Option (List Triple)

/-- A variant's fields, in the order in which they are written. -/
def record : Json.Record Draft Variant where
  title := "Variant"
  fields :=
    [{ name := "path"
       isPresent := fun draft => draft.path.isSome
       value := Json.text.map fun path draft => { draft with path := some path } },
     { name := "supportedTriples"
       isPresent := fun draft => draft.supportedTriples.isSome
       value :=
        (Json.list Triple.reader).map fun triples draft =>
          { draft with supportedTriples := some triples } }]
  blank := ⟨none, none⟩
  finish draft := do
    let path ← Json.require "path" draft.path
    let supportedTriples ← Json.require "supportedTriples" draft.supportedTriples
    pure { path, supportedTriples }

/-- The variant that a text describes. -/
def ofJson (input : Bytes) : Except Json.ReadError Variant :=
  record.reader.readAll input

end Variant

namespace Artifact

/-- What has been read of an artifact. -/
structure Draft where
  version : Option String
  kind : Option ArtifactKind
  variants : Option (List Variant)

/-- An artifact's fields, in the order in which they are written. -/
def record : Json.Record Draft Artifact where
  title := "Artifact"
  fields :=
    [{ name := "version"
       isPresent := fun draft => draft.version.isSome
       value := Json.text.map fun version draft => { draft with version := some version } },
     { name := "type"
       isPresent := fun draft => draft.kind.isSome
       value := ArtifactKind.reader.map fun kind draft => { draft with kind := some kind } },
     { name := "variants"
       isPresent := fun draft => draft.variants.isSome
       value :=
        (Json.list Variant.record.reader).map fun variants draft =>
          { draft with variants := some variants } }]
  blank := ⟨none, none, none⟩
  finish draft := do
    let version ← Json.require "version" draft.version
    let kind ← Json.require "type" draft.kind
    let variants ← Json.require "variants" draft.variants
    pure { version, kind, variants }

/-- The artifact that a text describes. -/
def ofJson (input : Bytes) : Except Json.ReadError Artifact :=
  record.reader.readAll input

end Artifact

namespace Descriptor

/-- What has been read of a descriptor. -/
structure Draft where
  schemaVersion : Option String
  artifacts : Option (Std.ExtTreeMap String Artifact)

/-- A descriptor's fields, in the order in which they are written. -/
def record : Json.Record Draft Descriptor where
  title := "BundleInfo"
  fields :=
    [{ name := "schemaVersion"
       isPresent := fun draft => draft.schemaVersion.isSome
       value := Json.text.map fun version draft => { draft with schemaVersion := some version } },
     { name := "artifacts"
       isPresent := fun draft => draft.artifacts.isSome
       value :=
        (Json.map Artifact.record.reader).map fun artifacts draft =>
          { draft with artifacts := some artifacts } }]
  blank := ⟨none, none⟩
  finish draft := do
    let schemaVersion ← Json.require "schemaVersion" draft.schemaVersion
    let artifacts ← Json.require "artifacts" draft.artifacts
    pure { schemaVersion, artifacts }

/-- The descriptor that a text describes. -/
def ofJson (input : Bytes) : Except Json.ReadError Descriptor :=
  record.reader.readAll input

end Descriptor

/-- The kind of artifact that a text names. -/
def ArtifactKind.ofJson (input : Bytes) : Except Json.ReadError ArtifactKind :=
  reader.readAll input

/-- The platform that a text names. -/
def Triple.ofJson (input : Bytes) : Except Json.ReadError Triple :=
  reader.readAll input

end BundlePacker
