/-!
# Platforms

The platforms that a packed executable is published for, named as build tools name them.
-/

namespace BundlePacker

/-- A processor, a vendor and an operating system. -/
inductive Triple where
  | x86_64AppleMacosx
  | arm64AppleMacosx
deriving DecidableEq

namespace Triple

/-- Every platform, in the order in which descriptors list them. -/
def supported : List Triple :=
  [x86_64AppleMacosx, arm64AppleMacosx]

/-- The name of a platform. -/
def name : Triple → String
  | x86_64AppleMacosx => "x86_64-apple-macosx"
  | arm64AppleMacosx => "arm64-apple-macosx"

instance : ToString Triple where
  toString := name

/-- The platform of a given name. -/
def ofName? (text : String) : Option Triple :=
  supported.find? fun triple => triple.name = text

theorem mem_supported (triple : Triple) : triple ∈ supported := by
  cases triple <;> decide

@[simp]
theorem ofName?_name (triple : Triple) : ofName? triple.name = some triple := by
  cases triple <;> decide

end Triple

end BundlePacker
