import BundlePacker.Descriptor.Reader
import BundlePacker.FileSystem.Alike
import BundlePacker.Json.Escape.Lemmas
import BundlePacker.Main
import BundlePacker.Proofs.Preservation
import BundlePacker.Text.Utf8.Lemmas
import BundlePacker.Proofs.Descriptor.ReadBack
import BundlePacker.Proofs.Bundle.Rollback
import BundlePacker.Proofs.Bundle.Contents
import BundlePacker.Proofs.CommandLine.Grammar
import BundlePacker.Proofs.Path.Names
import BundlePacker.Proofs.Bundle.Confinement
import BundlePacker.Proofs.Bundle.Leftover
import BundlePacker.Proofs.Bundle.Input
import BundlePacker.Proofs.Bundle.Frame
import BundlePacker.Proofs.Bundle.Repetition
import BundlePacker.Proofs.Bundle.Independence
import BundlePacker.Proofs.Bundle.Guard
import BundlePacker.Proofs.Descriptor.Canonical
import BundlePacker.Proofs.Program
import BundlePacker.Proofs.Descriptor.Framing
import BundlePacker.Proofs.Descriptor.Forms
import BundlePacker.Proofs.Archive.Order
import BundlePacker.Proofs.Archive.Failure
import BundlePacker.Proofs.Archive.Relative
import BundlePacker.Proofs.Descriptor.Layout
import BundlePacker.Proofs.Bundle.Log
import BundlePacker.Proofs.Bundle.Errors
import BundlePacker.Proofs.Bundle.Separation
import BundlePacker.Proofs.FileSystem.Raising
import BundlePacker.Proofs.FileSystem.Copying
