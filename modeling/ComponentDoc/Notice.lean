import ComponentDoc.Script.Source

namespace ComponentDoc

inductive NoticeLevel
  | debug
  | info
  | warning
  | error
  deriving DecidableEq, Repr

namespace NoticeLevel

def name : NoticeLevel → String
  | debug => "DEBUG"
  | info => "INFO"
  | warning => "WARNING"
  | error => "ERROR"

def rank : NoticeLevel → Nat
  | debug => 0
  | info => 1
  | warning => 2
  | error => 3

end NoticeLevel

inductive Notice
  | scriptParsed (offset : Int) (length : Nat)
  | typeTooDeep (text : String)
  | typeUnknown (subject : CodeText)
  | repetitionIgnored (parameter : CodeText)
  | selfReferenceDropped (name : CodeText)
  | exportSkipped (text : String)
  | exportedAs (name publicName : CodeText)
  | reactionIgnored
  | reactiveTargetIgnored (target : CodeText)
  | reactivelyAssigned (name : CodeText)
  | dispatchSkipped
  | noOptions
  | sectionIgnored (key : CodeText)
  | sectionUnknown (key : CodeText)
  | sectionNotObject
  | dataNotObject
  | entryNotFunction (bucket : String) (name : CodeText)
  | handlerDispatchSkipped
  | refWithoutTarget (element : String)
  | slotNameIsExpression (name : String)
  | markupRead (components events slots refs : Nat)
  | moduleScriptSkipped (offset : Nat)
  | noScript
  | itemHidden (name : CodeText)
  | assembled (name : String) (data computed events slots : Nat)
  | typeUnresolved (message : CodeText)
  | configurationMissing (path : String)
  | extractionFailed (file : String) (message : CodeText)
  | typeUnresolvedIn (message : CodeText)
  | written (file out : String)
  deriving DecidableEq, Repr

namespace Notice

def level : Notice → NoticeLevel
  | reactiveTargetIgnored _ | sectionUnknown _ | sectionNotObject | dataNotObject
  | entryNotFunction .. | refWithoutTarget _ | slotNameIsExpression _ | configurationMissing _
  | typeUnresolvedIn _ => .warning
  | noOptions | assembled .. | written .. => .info
  | extractionFailed .. => .error
  | _ => .debug

def origin : Notice → String
  | scriptParsed .. => "script_parser"
  | typeTooDeep _ | typeUnknown _ => "type_resolver"
  | repetitionIgnored _ => "script_helpers"
  | selfReferenceDropped _ => "dependency_analyzer"
  | exportSkipped _ | exportedAs .. | reactionIgnored | reactiveTargetIgnored _
  | reactivelyAssigned _ | dispatchSkipped => "classifier_v3"
  | noOptions | sectionIgnored _ | sectionUnknown _ | sectionNotObject | dataNotObject
  | entryNotFunction .. => "classifier_v2"
  | handlerDispatchSkipped | refWithoutTarget _ | slotNameIsExpression _ | markupRead .. =>
    "markup_analyzer"
  | moduleScriptSkipped _ | noScript | typeUnresolved _ => "extract"
  | itemHidden _ | assembled .. => "assembler"
  | configurationMissing _ => "load_config"
  | extractionFailed .. | typeUnresolvedIn _ | written .. => "cli"

def message : Notice → CodeText
  | scriptParsed offset length =>
    "Parsed script region at offset " ++ toString offset ++ " (" ++ toString length ++ " chars)"
  | typeTooDeep text => "Type nesting deeper than 4 in '" ++ text ++ "'"
  | typeUnknown subject => ("Falling back to 'any' for " : CodeText) ++ subject
  | repetitionIgnored parameter =>
    ("Ignoring repetition of non-trailing parameter '" : CodeText) ++ parameter ++ "'"
  | selfReferenceDropped name =>
    ("Dropping self-reference of computed '" : CodeText) ++ name ++ "'"
  | exportSkipped text => "Skipping export without declaration: " ++ text
  | exportedAs name publicName =>
    ("'" : CodeText) ++ name ++ ("' is exported as '" : String) ++ publicName ++ "'"
  | reactionIgnored => "Reactive statement is not an assignment, ignoring"
  | reactiveTargetIgnored target =>
    ("Ignoring reactive assignment to '" : CodeText) ++ target ++ "'"
  | reactivelyAssigned name => ("Data '" : CodeText) ++ name ++ "' is reactively assigned"
  | dispatchSkipped => "Dispatch with a dynamic event name, skipping"
  | noOptions => "No 'export default' options object found in script"
  | sectionIgnored key => ("Ignoring component option '" : CodeText) ++ key ++ "'"
  | sectionUnknown key => ("Unrecognised component option '" : CodeText) ++ key ++ "'"
  | sectionNotObject => "Expected an object literal in component options"
  | dataNotObject => "Component 'data' does not return an object literal"
  | entryNotFunction bucket name =>
    (bucket ++ " entry '" : CodeText) ++ name ++ "' is not a function"
  | handlerDispatchSkipped => "Handler dispatches a dynamic event name, skipping"
  | refWithoutTarget element => "bind:this on <" ++ element ++ "> has no target"
  | slotNameIsExpression name => "Slot name bound to an expression, using '" ++ name ++ "'"
  | markupRead components events slots refs =>
    "Markup: " ++ toString components ++ " component uses, " ++ toString events ++ " events, " ++
      toString slots ++ " slots, " ++ toString refs ++ " refs"
  | moduleScriptSkipped offset =>
    "Skipping module-level script at offset " ++ toString offset
  | noScript => "Component has no instance script"
  | itemHidden name => ("Dropping hidden item '" : CodeText) ++ name ++ "'"
  | assembled name data computed events slots =>
    "Assembled component '" ++ name ++ "': " ++ toString data ++ " data, " ++
      toString computed ++ " computed, " ++ toString events ++ " events, " ++ toString slots ++
      " slots"
  | typeUnresolved message | typeUnresolvedIn message => message
  | configurationMissing path => "Configuration file " ++ path ++ " not found, using defaults"
  | extractionFailed file message =>
    ("Extraction of " ++ file ++ " failed: " : CodeText) ++ message
  | written file out => "Wrote documentation of " ++ file ++ " to " ++ out

end Notice

def Script.Source.notice (s : Source) : Notice := .scriptParsed s.offset s.text.length

end ComponentDoc
