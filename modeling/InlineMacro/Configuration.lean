import InlineMacro.Analysis.Eligibility
import InlineMacro.Failure
import InlineMacro.Json
import InlineMacro.Json.Record

/-!
# Configuration

What a run is asked to do, with its defaults, and its JSON form. A configuration is read from an
object, whose unknown members say nothing, or from an array of the settings in order. What is left
out takes its default; a setting of the wrong kind, or given twice, spoils the whole.
-/

set_option autoImplicit false

namespace InlineMacro

/-- Whether and where a run is recorded. -/
structure RecordSettings where
  isEnabled : Bool := false
  directory : String := "record"
deriving DecidableEq, Inhabited, Repr

/-- The settings of a run. -/
structure Configuration where
  selectsStatic : Bool := false
  inlineMask : Nat := 3
  usesPreprocessor : Bool := false
  preprocessor : String := "gcc"
  extraFlags : List String := []
  includePaths : List String := []
  normalizesLabels : Bool := true
  keepsDefinitions : Bool := false
  purgesPrototypes : Bool := false
  record : RecordSettings := {}
deriving DecidableEq, Inhabited, Repr

namespace Configuration

def effectiveMask (configuration : Configuration) : Nat :=
  if configuration.selectsStatic then configuration.inlineMask ||| InlineMask.staticOnly
  else configuration.inlineMask

end Configuration

/-! ## Writing -/

def RecordSettings.toJson (settings : RecordSettings) : Json :=
  .object [("enabled", .bool settings.isEnabled), ("dir", .string settings.directory)]

def Configuration.toJson (configuration : Configuration) : Json :=
  .object [("macroize_static_funs", .bool configuration.selectsStatic),
    ("inline_mask", .ofNat configuration.inlineMask),
    ("with_cpp", .bool configuration.usesPreprocessor),
    ("cpp_program", .string configuration.preprocessor),
    ("extra_cpp_flags", .array (configuration.extraFlags.map .string)),
    ("include_paths", .array (configuration.includePaths.map .string)),
    ("normalize_labels", .bool configuration.normalizesLabels),
    ("keep_originals", .bool configuration.keepsDefinitions),
    ("purge_inlines", .bool configuration.purgesPrototypes),
    ("record", configuration.record.toJson)]

/-! ## Reading -/

def RecordSettings.form : Json.Decoder.RecordForm RecordSettings where
  title := "struct RecordConfig"
  standard := {}
  fields := [
    { name := "enabled",
      read := fun settings => do return { settings with isEnabled := ← Json.Decoder.bool } },
    { name := "dir",
      read := fun settings => do return { settings with directory := ← Json.Decoder.path } }]

namespace Configuration

open Json.Decoder in
def form : RecordForm Configuration where
  title := "struct MacroizeConfig"
  standard := {}
  fields := [
    { name := "macroize_static_funs",
      read := fun settings => do return { settings with selectsStatic := ← bool } },
    { name := "inline_mask",
      read := fun settings => do return { settings with inlineMask := ← byte } },
    { name := "with_cpp",
      read := fun settings => do return { settings with usesPreprocessor := ← bool } },
    { name := "cpp_program",
      read := fun settings => do return { settings with preprocessor := ← text } },
    { name := "extra_cpp_flags",
      read := fun settings => do return { settings with extraFlags := ← list text } },
    { name := "include_paths",
      read := fun settings => do return { settings with includePaths := ← list path } },
    { name := "normalize_labels",
      read := fun settings => do return { settings with normalizesLabels := ← bool } },
    { name := "keep_originals",
      read := fun settings => do return { settings with keepsDefinitions := ← bool } },
    { name := "purge_inlines",
      read := fun settings => do return { settings with purgesPrototypes := ← bool } },
    { name := "record",
      read := fun settings => do
        return { settings with record := ← RecordSettings.form.decoder } }]

def parse (source : String) : Except Failure Configuration :=
  (form.decoder.decode source).mapError Failure.configuration

end Configuration

end InlineMacro
