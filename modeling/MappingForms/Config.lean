import MappingForms.Batch
import MappingForms.Interchange.Types
import MappingForms.Toml.Reader

/-!
Contract: the settings of a batch as they are written in a configuration file.

Owns: the two sections of a configuration, what is accepted in them, and the options
of a batch that follow.

Anything that a section does not know is refused. A section may also be written as an
array of all its settings in order.
-/

set_option autoImplicit false

namespace MappingForms

structure Config where
  parallelism : Option Nat := none
  faultLimit : Option Nat := none
  outDir : Option String := none
  reportUrl : Option String := none
  defaults : Marker := {}
deriving DecidableEq

namespace Config

def fileName : String := "mapforge.toml"

private def setting? {α : Type} (entries : Toml.Entries) (name : String)
    (decode : Toml → Option α) : Option (Option α) :=
  match entries.lookup name with
  | some value => (decode value).map some
  | none => some none

/-- The settings of a section, which must all be known. -/
private def settings? (names : List String) : Toml → Option Toml.Entries
  | .table _ entries =>
    if entries.all fun (name, _) => names.contains name then some entries else none
  | .array elements =>
    if names.length ≤ elements.length then some (names.zip elements) else none
  | _ => none

private def nat? : Toml → Option Nat
  | .integer value => if 0 ≤ value then some value.toNat else none
  | _ => none

def text? : Toml → Option String
  | .string value => some value
  | _ => none

def bool? : Toml → Option Bool
  | .bool value => some value
  | _ => none

def isEmpty : Toml → Bool
  | .array elements => elements.isEmpty
  | .table _ entries => entries.isEmpty
  | _ => false

/-- A choice by name, or by a table with the name as its one key and nothing in it. -/
def variant? {α : Type} (all : List α) (label : α → String) (value : Toml) : Option α :=
  let named (name : String) := all.find? fun variant => label variant == name
  match value with
  | .string name => named name
  | .table _ [(name, content)] => if isEmpty content then named name else none
  | _ => none

private def defaults? (value : Toml) : Option Marker := do
  let entries ← settings? ["expression", "update", "optional-chain", "collections"] value
  return {
    expression := ← setting? entries "expression" bool?
    update := ← setting? entries "update" bool?
    links := ← setting? entries "optional-chain" (variant? LinkPolicy.all LinkPolicy.label)
    collections := ←
      setting? entries "collections" (variant? CollectionPolicy.all CollectionPolicy.label) }

private def generator? (value : Toml) : Option Config := do
  let entries ←
    settings? ["parallelism", "fault-message-limit", "out-dir", "report-url"] value
  return {
    parallelism := ← setting? entries "parallelism" nat?
    faultLimit := ← setting? entries "fault-message-limit" nat?
    outDir := ← setting? entries "out-dir" text?
    reportUrl := ← setting? entries "report-url" text? }

private def ofEntries? (entries : Toml.Entries) : Option Config := do
  let sections ← settings? ["generator", "defaults"] (.table .header entries)
  let generator ← setting? sections "generator" generator?
  let defaults ← setting? sections "defaults" defaults?
  return { generator.getD {} with defaults := defaults.getD {} }

def parse? (text : String) : Option Config := (Toml.parse? text).bind ofEntries?

def options (config : Config) : Batch.Options :=
  let options : Batch.Options :=
    { faultLimit := config.faultLimit.getD Batch.defaultFaultLimit
      defaults := config.defaults
      reportUrl := config.reportUrl }
  match config.parallelism with
  | some workers => options.withParallelism workers
  | none => options

end Config

end MappingForms
