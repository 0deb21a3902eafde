import HostScript.Environment.Basic
import HostScript.Json.Basic

/-!
# HostScript.Environment.Description

Environments as JSON documents.  Every part of an environment is optional and unknown members are
ignored, but a member of the wrong type makes the whole description invalid.

An instruction without fields is written as its name, any other as an object whose only member has
the name of the instruction and holds its field, or an object with its fields.
-/

namespace HostScript

/-- Every item of a list, or nothing if one is invalid. -/
def Json.list? {α : Type} (item? : Json → Option α) (j : Json) : Option (List α) := do
  (← j.array?).mapM item?

/-- Every member of an object, or nothing if one is invalid. -/
def Json.map? {α : Type} (value? : Json → Option α) (j : Json) : Option (NameMap α) := do
  let entries ← (← j.object?).mapM fun (name, value) => return (name, ← value? value)
  return .ofList entries

/-- A member that may be missing, but not invalid. -/
def Json.member? {α : Type} (name : String) (missing : α) (value? : Json → Option α) (j : Json) :
    Option α :=
  match j.get? name with
  | some value => value? value
  | none => some missing

/-- A member that has to be there. -/
def Json.required? {α : Type} (name : String) (value? : Json → Option α) (j : Json) : Option α := do
  value? (← j.get? name)

/-- Null or a value. -/
def Json.nullable? {α : Type} (value? : Json → Option α) : Json → Option (Option α)
  | null => some none
  | value => some <$> value? value

namespace JumpTarget

def ofJson? : Json → Option JumpTarget
  | .string "Unresolved" => some unresolved
  | .string "Break" => some breakPoint
  | .string "Continue" => some continuePoint
  | .object [("Unresolved", .null)] => some unresolved
  | .object [("Break", .null)] => some breakPoint
  | .object [("Continue", .null)] => some continuePoint
  | .object [("Address", value)] => address <$> value.nat?
  | _ => none

end JumpTarget

def BinaryOperator.ofName? (name : String) : Option BinaryOperator := all.find? (·.name == name)

def UnaryOperator.ofName? (name : String) : Option UnaryOperator := all.find? (·.name == name)

/-- The name of an alternative without fields: a string, or the name of a null member. -/
def Json.alternative? : Json → Option String
  | string name => some name
  | object [(name, null)] => some name
  | _ => none

namespace Instruction

/-- Instructions without fields. -/
def ofName? : String → Option Instruction
  | "PushNull" => some pushNull
  | "Duplicate" => some duplicate
  | "Discard" => some discard
  | "JumpPop" => some jumpPop
  | "Return" => some ret
  | _ => none

/-- Calls have their name and number of arguments as members. -/
def callOfJson? (make : String → Nat → Instruction) (fields : Json) : Option Instruction := do
  let name ← fields.required? "name" Json.string?
  let argc ← fields.required? "argc" Json.nat?
  return make name argc

/-- Instructions with fields. -/
def ofFields? (name : String) (fields : Json) : Option Instruction :=
  match name with
  | "PushNumber" => pushNumber <$> fields.number?
  | "PushString" => pushString <$> fields.string?
  | "PushIdentifier" => pushIdentifier <$> fields.string?
  | "PushField" => pushField <$> fields.string?
  | "PushArgument" => pushArgument <$> fields.nat?
  | "SetIdentifier" => setIdentifier <$> fields.string?
  | "SetField" => setField <$> fields.string?
  | "Call" => callOfJson? call fields
  | "CallInstance" => callOfJson? callInstance fields
  | "CallStatic" => do
    let template ← fields.required? "template" Json.string?
    callOfJson? (callStatic template) fields
  | "UnaryOp" => do unaryOp <$> UnaryOperator.ofName? (← fields.alternative?)
  | "BinaryOp" => do binaryOp <$> BinaryOperator.ofName? (← fields.alternative?)
  | "BinaryAnd" => binaryAnd <$> JumpTarget.ofJson? fields
  | "BinaryOr" => binaryOr <$> JumpTarget.ofJson? fields
  | "Jump" => jump <$> JumpTarget.ofJson? fields
  | "JumpIf" => jumpIf <$> JumpTarget.ofJson? fields
  | "JumpUnless" => jumpUnless <$> JumpTarget.ofJson? fields
  | "JumpPush" => jumpPush <$> JumpTarget.ofJson? fields
  | "SwitchJump" => switchJump <$> JumpTarget.ofJson? fields
  | _ => none

def ofJson? : Json → Option Instruction
  | .string name => ofName? name
  | .object [(name, .null)] => ofName? name
  | .object [(name, fields)] => ofFields? name fields
  | _ => none

end Instruction

def Constant.ofJson? : Json → Option Constant
  | .number value => some (number value.toNumber)
  | .string value => some (string value)
  | _ => none

def Signature.ofJson? (j : Json) : Option Signature := do
  let name ← j.required? "name" Json.string?
  let argc ← j.required? "argc" Json.nat?
  return ⟨name, argc⟩

def HostFunction.ofJson? (j : Json) : Option HostFunction := do
  let name ← j.required? "name" Json.string?
  let minArgs ← j.member? "min_args" 0 Json.nat?
  let maxArgs ← j.member? "max_args" none (Json.nullable? Json.nat?)
  return ⟨name, minArgs, maxArgs⟩

def Template.ofJson? (j : Json) : Option Template := do
  let name ← j.required? "name" Json.string?
  let functions ← j.member? "static_functions" [] (Json.list? Signature.ofJson?)
  return ⟨name, functions⟩

/-- The environment that a document describes. -/
def Environment.ofJson? (j : Json) : Option Environment := do
  let _ ← j.object?
  return {
    constants := ← j.member? "constants" .empty (Json.map? Constant.ofJson?)
    systemMacros := ← j.member? "system_macros" .empty (Json.map? (Json.list? Instruction.ofJson?))
    globalFunctions := ← j.member? "global_functions" [] (Json.list? HostFunction.ofJson?)
    builtins := ← j.member? "builtins" [] (Json.list? Signature.ofJson?)
    macros := ← j.member? "macros" [] (Json.list? Signature.ofJson?)
    templates := ← j.member? "templates" [] (Json.list? Template.ofJson?)
    directives := ← j.member? "directives" [] (Json.list? Json.string?)
  }

end HostScript
