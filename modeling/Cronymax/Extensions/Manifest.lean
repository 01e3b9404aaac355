import Mathlib.Data.List.Basic

/-! The manifest of an extension and the checks of `Manifest::validate`.  The id is
`<publisher>.<name>`: nothing else is asked of its characters. -/

namespace Cronymax.Extensions

/-- `ExtensionError`. -/
inductive ExtensionError where
  | manifestParse (message : String)
  | manifestInvalid (message : String)
  | namespaceReserved (message : String)
  | publisherPrefixMismatch (id publisher : String)
  | requiredFieldMissing (field : String)
  | notInstalled (id : String)
  | alreadyInstalled (id version : String)
  | package (message : String)
  | unknownActivationEvent (raw : String)
  | io
deriving DecidableEq

/-- `serde_json::Value`. -/
inductive Json where
  | null
  | bool (b : Bool)
  | number (text : String)
  | string (s : String)
  | array (items : List Json)
  | object (fields : List (String × Json))

namespace Json

def get (key : String) : Json → Option Json
  | .object fields => fields.lookup key
  | _ => none

def asStr : Json → Option String
  | .string s => some s
  | _ => none

def ofOption (s : Option String) : Json := (s.map .string).getD .null

def ofFlag (b : Option Bool) : Json := (b.map .bool).getD .null

end Json

/-- The recognised patterns of `activationEvents`. -/
inductive ActivationEvent where
  | startup
  | star
  | command (id : String)
  | agentProvider (id : String)
  | view (id : String)
deriving DecidableEq

namespace ActivationEvent

def tail (label raw : String) : Option String :=
  if label.toList <+: raw.toList then
    let id := raw.toList.drop label.toList.length
    if id = [] then none else some (String.ofList id)
  else none

/-- The forms of an activation event. -/
def parse (raw : String) : Option ActivationEvent :=
  if raw = "onStartup" then some .startup
  else if raw = "*" then some .star
  else if "onCommand:".toList <+: raw.toList then (tail "onCommand:" raw).map .command
  else if "onAgentProvider:".toList <+: raw.toList then
    (tail "onAgentProvider:" raw).map .agentProvider
  else (tail "onView:" raw).map .view

def parseAll (raws : List String) : Except ExtensionError (List ActivationEvent) :=
  raws.mapM fun raw =>
    match parse raw with
    | some event => .ok event
    | none => .error (.unknownActivationEvent raw)

end ActivationEvent

/-- The fields that the platform checks. -/
structure Manifest where
  id : String
  name : String
  version : String
  publisher : String
  /-- `engines.cronymax`. -/
  engine : String
  main : Option String
  activationEvents : List String
deriving DecidableEq

namespace Manifest

variable (m : Manifest)

/-- `split_once('.')`. -/
def splitId : Option (String × String) :=
  if '.' ∈ m.id.toList then
    some (String.ofList (m.id.toList.takeWhile (· ≠ '.')),
      String.ofList ((m.id.toList.dropWhile (· ≠ '.')).drop 1))
  else none

def require (field value : String) : Except ExtensionError Unit :=
  if value = "" then .error (.requiredFieldMissing field) else .ok ()

def validateRequiredFields : Except ExtensionError Unit := do
  require "id" m.id
  require "name" m.name
  require "version" m.version
  require "publisher" m.publisher
  if let some main := m.main then require "main" main
  require "engines.cronymax" m.engine

/-- `validate_id_format`: two parts at least, the first the publisher. -/
def validateIdFormat : Except ExtensionError Unit :=
  match m.splitId with
  | none =>
    .error (.manifestInvalid ("id `" ++ m.id ++ "` must be `<publisher>.<name>` (got no `.`)"))
  | some (publisher, name) =>
    if publisher ≠ m.publisher then .error (.publisherPrefixMismatch m.id m.publisher)
    else if name = "" then
      .error (.manifestInvalid ("id `" ++ m.id ++ "` is missing the `<name>` segment after `.`"))
    else .ok ()

def validateNamespaceReserved : Except ExtensionError Unit :=
  if m.publisher = "cronymax" then
    .error (.namespaceReserved "publisher `cronymax` is reserved")
  else .ok ()

def validateActivationEvents : Except ExtensionError Unit :=
  (ActivationEvent.parseAll m.activationEvents).map fun _ => ()

/-- `validate`. -/
def validate : Except ExtensionError Unit := do
  m.validateRequiredFields
  m.validateIdFormat
  m.validateNamespaceReserved
  m.validateActivationEvents

end Manifest

end Cronymax.Extensions
