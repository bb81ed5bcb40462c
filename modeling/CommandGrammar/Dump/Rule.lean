import CommandGrammar.Dump.Record
import CommandGrammar.Rule.Set

/-! Grammars and rule sets on one line. Of a grammar only the label and the hint are shown. -/
namespace CommandGrammar
open Dump

def Grammar.dump {α : Type} (g : Grammar α) : String :=
  record "Parser"
    [("tag", option (g.label?.map fun l => quoted l.toList)), ("hint", completionHint g.hint.symbols)]

def RuleSet.dump (rs : RuleSet) : String :=
  openRecord "PredefinedRules"
    [("options", record "GrammarOptions"
      [("multiline_bracketed_strings", bool rs.multiline),
       ("path_separator", quoted rs.separator)]),
     ("placeholders", list (Rule.all.map Rule.name))]

end CommandGrammar
