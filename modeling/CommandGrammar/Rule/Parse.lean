import CommandGrammar.Diagnostic
import CommandGrammar.Grammar.Run
import CommandGrammar.Rule.Set

/-! Reading a whole text with one rule, which has to consume every token. -/
namespace CommandGrammar

inductive RuleError where
  | noMatch (rule : Rule)
  /-- The rest begins at `offset`. -/
  | unconsumed (rule : Rule) (offset : Nat)
  deriving DecidableEq, Repr

namespace RuleError

def rule : RuleError → Rule
  | .noMatch r => r
  | .unconsumed r _ => r

def message : RuleError → String
  | .noMatch r => r.name ++ " did not match the input"
  | .unconsumed r o => r.name ++ " matched, but input remains at offset " ++ toString o

/-- The error as a message at the point of failure. -/
def diagnostic : RuleError → Diagnostic
  | .noMatch r => ⟨.expectedToken, message (.noMatch r), .point 0⟩
  | .unconsumed r o => ⟨.unexpectedInput, message (.unconsumed r o), .point o⟩

end RuleError

/-- A line of the log. -/
inductive LogEntry where
  | event (event : Event)
  /-- A rule starts on a text of `size` bytes. -/
  | started (rule : Rule) (size : Nat)
  /-- A rule left the rest from `offset` on. -/
  | stopped (rule : Rule) (offset : Nat)
  deriving DecidableEq, Repr

namespace LogEntry

def level : LogEntry → String
  | .event (.matched ..) | .event (.failed ..) => "TRACE"
  | _ => "DEBUG"

def message : LogEntry → String
  | .event (.matched l s e) =>
    "[RULE] " ++ l ++ " matched tokens " ++ toString s ++ ".." ++ toString e
  | .event (.failed l p) => "[RULE] " ++ l ++ " failed at token " ++ toString p
  | .event (.supplied l p) => "[MISSING] " ++ l ++ " at token " ++ toString p
  | .started r n => "[PARSE_RULE] rule=" ++ r.name ++ " len=" ++ toString n
  | .stopped r o => "[PARSE_RULE] rule=" ++ r.name ++ " stopped at offset " ++ toString o

end LogEntry

namespace RuleSet

/-- The element of a text that the rule matches as a whole, and the log. -/
def parseLogged (rs : RuleSet) (r : Rule) (text : Text) :
    Except RuleError Element × List LogEntry :=
  let source := Source.ofText text
  let outcome := (rs.grammar r).run (source.window 0)
  let log := .started r text.byteSize :: outcome.log.map .event
  match outcome.result with
  | none => (.error (.noMatch r), log)
  | some (e, n) =>
    if source.isEnd n then (.ok e, log)
    else
      let offset := source.offsetAt n
      (.error (.unconsumed r offset), log ++ [.stopped r offset])

def parse (rs : RuleSet) (r : Rule) (text : Text) : Except RuleError Element :=
  (rs.parseLogged r text).1

end RuleSet
end CommandGrammar
