import FieldPromotion.Tree.Stmt

/-!
# Log events

What happened while a module was worked on, in the order in which it happened. An event is a value;
how it is shown is decided where the log is written.
-/

namespace FieldPromotion

/-- How important an event is; later levels are more detailed. -/
inductive Level where
  | info
  | debug
  | trace
  deriving DecidableEq, Inhabited

def Level.text : Level → String
  | .info => "INFO"
  | .debug => "DEBUG"
  | .trace => "TRACE"

/-- A detail of an event: a text shown as it is, a word shown in quotes, or a number. -/
inductive Detail where
  | text (value : String)
  | word (value : String)
  | number (value : Nat)
  deriving DecidableEq, Inhabited

/-- Something that happened. -/
inductive Event where
  | unknownSuperclass (cls superclass : String)
  | underCycle (cls : String)
  | ancestorFailed (cls ancestor : String)
  | leftAsParsed (cls : String) (errors : Nat)
  | promoting (cls : String) (candidates : Nat)
  | promoted (cls field : String) (storage : Storage) (visibility : Visibility)
  | loadingConfig (path : String)
  | unitStarted (name : String)
  | unitDone (classes fields : Nat)
  deriving DecidableEq, Inhabited

namespace Event

def level : Event → Level
  | .promoted _ _ _ _ => .trace
  | .unitStarted _ => .info
  | .unitDone _ _ => .info
  | _ => .debug

/-- The part of the program that an event comes from. -/
def target : Event → String
  | .loadingConfig _ => "argfieldc"
  | .unitStarted _ => "argfieldc"
  | .unitDone _ _ => "argfieldc"
  | _ => "argfields::desugar"

def message : Event → String
  | .unknownSuperclass _ _ => "superclass not in class table, treating as root"
  | .underCycle _ => "skipping class that inherits from a cycle"
  | .ancestorFailed _ _ => "skipping class whose ancestor failed"
  | .leftAsParsed _ _ => "class left as parsed"
  | .promoting _ _ => "desugaring constructor"
  | .promoted _ _ _ _ => "synthesized field"
  | .loadingConfig _ => "loading config"
  | .unitStarted _ => "desugaring"
  | .unitDone _ _ => "desugared"

/-- The details of an event in the order they are shown. -/
def details : Event → List (String × Detail)
  | .unknownSuperclass cls superclass => [("class", .text cls), ("superclass", .text superclass)]
  | .underCycle cls => [("class", .text cls)]
  | .ancestorFailed cls ancestor => [("class", .text cls), ("ancestor", .text ancestor)]
  | .leftAsParsed cls errors => [("class", .text cls), ("errors", .number errors)]
  | .promoting cls candidates => [("class", .text cls), ("candidates", .number candidates)]
  | .promoted cls field storage visibility =>
    [("class", .text cls), ("field", .text field), ("storage", .word storage.keyword),
      ("visibility", .word visibility.keyword)]
  | .loadingConfig path => [("path", .text path)]
  | .unitStarted name => [("unit", .text name)]
  | .unitDone classes fields => [("classes", .number classes), ("fields", .number fields)]

end Event

end FieldPromotion
