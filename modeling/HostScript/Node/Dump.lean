import HostScript.Dump
import HostScript.Node.Basic

/-!
# HostScript.Node.Dump

Syntax trees in full, for people to look at.
-/

namespace HostScript

def Location.dump (l : Location) : Dump :=
  .record "Location"
    [("source", .ofOption (fun s => .word (Text.quote s)) l.source), ("line", .ofNat l.line),
      ("column", .ofNat l.column)]

def AdjustKind.dump : AdjustKind → Dump
  | before => .word "Prefix"
  | after => .word "Postfix"
  | statement => .word "Statement"

def SwitchKind.dump : SwitchKind → Dump
  | switch => .word "Switch"
  | select => .word "Select"

namespace Node

def dumpText (s : String) : Dump := .word (Text.quote s)

mutual

def dump : Node → Dump
  | null l => .apply "Null" [l.dump]
  | number l value => .apply "Number" [l.dump, .apply "OrderedFloat" [.word value.detailed]]
  | string l value => .apply "Str" [l.dump, dumpText value]
  | identifier l name => .apply "Identifier" [l.dump, dumpText name]
  | chain l current remaining =>
    .record "EvaluationChain"
      [("location", l.dump), ("current", dump current), ("remaining", dump remaining)]
  | call l name arguments =>
    .record "Call"
      [("location", l.dump), ("name", dumpText name), ("arguments", .list (dumpAll arguments))]
  | staticCall l template name arguments =>
    .record "StaticCall"
      [("location", l.dump), ("template", dumpText template), ("name", dumpText name),
        ("arguments", .list (dumpAll arguments))]
  | unary l op operand =>
    .record "Unary" [("location", l.dump), ("operator", .word op.name), ("operand", dump operand)]
  | binary l op left right =>
    .record "Binary"
      [("location", l.dump), ("operator", .word op.name), ("left", dump left),
        ("right", dump right)]
  | block l statements =>
    .record "Block" [("location", l.dump), ("statements", .list (dumpAll statements))]
  | returns l value => .record "Return" [("location", l.dump), ("value", dumpOptional value)]
  | discard l value => .record "Discard" [("location", l.dump), ("value", dump value)]
  | branch l condition accepted otherwise =>
    .record "If"
      [("location", l.dump), ("condition", dump condition), ("then", dump accepted),
        ("otherwise", dumpOptional otherwise)]
  | switch l kind value cases fallback =>
    .apply "Switch"
      [.record "Switch"
        [("location", l.dump), ("kind", kind.dump), ("value", dump value),
          ("cases", .list (dumpCases cases)), ("default", dumpOptional fallback)]]
  | assign l op target value =>
    .record "Set"
      [("location", l.dump), ("operator", .ofOption (fun op => .word op.name) op),
        ("target", dump target), ("value", dump value)]
  | adjust l kind target direction =>
    .record "Adjust"
      [("location", l.dump), ("kind", kind.dump), ("target", dump target),
        ("delta", .word (toString direction.delta))]
  | whileLoop l condition body =>
    .record "While" [("location", l.dump), ("condition", dump condition), ("body", dump body)]
  | doLoop l body condition =>
    .record "DoWhile" [("location", l.dump), ("body", dump body), ("condition", dump condition)]
  | forLoop l init condition post body =>
    .record "For"
      [("location", l.dump), ("init", dump init), ("condition", dump condition),
        ("post", dump post), ("body", dump body)]
  | leave l => .apply "Break" [l.dump]
  | proceed l => .apply "Continue" [l.dump]
  | label l name statement =>
    .record "Label" [("location", l.dump), ("name", dumpText name), ("statement", dump statement)]
  | jump l target => .record "Jump" [("location", l.dump), ("label", dumpText target)]
  | callLabel l target => .record "JumpPush" [("location", l.dump), ("label", dumpText target)]
  | back l => .apply "JumpPop" [l.dump]
  | directive l name _ _ =>
    .record "Directive"
      [("location", l.dump), ("directive", .record "MarkerDirective" [("name", dumpText name)])]
  | function l id name parameters body =>
    .record "FunctionDefinition"
      [("location", l.dump), ("id", .apply "FunctionId" [.ofNat id]), ("name", dumpText name),
        ("parameters", .list (parameters.map dumpText)), ("body", dump body)]

def dumpAll : List Node → List Dump
  | [] => []
  | node :: nodes => dump node :: dumpAll nodes

def dumpOptional : Option Node → Dump
  | none => .word "None"
  | some node => .apply "Some" [dump node]

def dumpCases : List SwitchCase → List Dump
  | [] => []
  | .mk value body :: cases =>
    .record "SwitchCase" [("value", dump value), ("body", dump body)] :: dumpCases cases

end

end Node

end HostScript
