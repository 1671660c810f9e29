import SsaFlow.Json.Render
import SsaFlow.Json.Shape

/-! # Flow configuration

    What counts as a flow step is open in two places: whether a possible write
    flows into the memory behind it, and whether conversions pass their operand
    on. A configuration settles both.
-/

namespace SsaFlow

/-- When the possible write of a chi flows into the chi. -/
inductive PartialPolicy where
  /-- Unless the type of the chi is unknown: such a write may have reached any
      variable that escaped, and would flow into all of them. -/
  | unlessUnknown
  /-- Always. -/
  | always
  /-- Never. -/
  | never
  deriving DecidableEq, Inhabited

namespace PartialPolicy

/-- Whether the possible write flows on, given whether the chi's type is
    unknown. -/
def allows : PartialPolicy → Bool → Bool
  | unlessUnknown, unknown => !unknown
  | always, _ => true
  | never, _ => false

/-- The saved name. -/
def name : PartialPolicy → String
  | unlessUnknown => "unless_unknown"
  | always => "always"
  | never => "never"

/-- The name as it is shown. -/
def word : PartialPolicy → String
  | unlessUnknown => "UnlessUnknown"
  | always => "Always"
  | never => "Never"

/-- A policy off its tree. -/
def read : Json.Reader PartialPolicy :=
  Json.readVariant
    (fun name => [unlessUnknown, always, never].find? fun policy => policy.name = name)
    fun _ _ _ => none

end PartialPolicy

/-- A flow configuration. -/
structure FlowConfig where
  /-- When the possible write of a chi flows into the chi. -/
  partialChi : PartialPolicy
  /-- Whether conversions and casts to a base class are flow steps. -/
  trackConversions : Bool
  deriving DecidableEq, Inhabited

namespace FlowConfig

/-- The configuration that is used when none is given. -/
def standard : FlowConfig := ⟨.unlessUnknown, true⟩

/-- A truth value as it is shown. -/
def flag (b : Bool) : String := if b then "true" else "false"

/-- A configuration as it is shown. -/
def text (c : FlowConfig) : String :=
  "FlowConfig \x7b partial_chi: " ++ c.partialChi.word ++ ", track_conversions: " ++
    flag c.trackConversions ++ " \x7d"

/-- A configuration as a tree. -/
def toJson (c : FlowConfig) : Json :=
  .ofMembers [("partial_chi", .ofString c.partialChi.name),
    ("track_conversions", .bool c.trackConversions)]

/-- The two fields of a configuration: an object with or without them, or an
    array of the first few. -/
def fields? : Json → Option (Option Json × Option Json)
  | .arr [] => some (none, none)
  | .arr [a] => some (some a, none)
  | .arr [a, b] => some (some a, some b)
  | .obj members =>
    match Json.fields? ["partial_chi", "track_conversions"] (.obj members) with
    | some [a, b] => some (a, b)
    | _ => none
  | _ => none

/-- A field that has a default. -/
def orElse {α : Type} (read : Json.Reader α) (default : α) (room : Nat) : Option Json → Option α
  | none => some default
  | some j => read room j

/-- A configuration off its tree; what is missing is as in `standard`. -/
def read : Json.Reader FlowConfig
  | room + 1, j => do
    let (partialChi, trackConversions) ← fields? j
    let partialChi ← orElse PartialPolicy.read standard.partialChi room partialChi
    let trackConversions ← orElse Json.readBool standard.trackConversions room trackConversions
    return ⟨partialChi, trackConversions⟩
  | _, _ => none

/-- The configuration of a text. -/
def load (text : String) : Option FlowConfig := Json.readText read text

end FlowConfig

end SsaFlow
