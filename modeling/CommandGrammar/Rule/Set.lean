import CommandGrammar.Fragment.Function
import CommandGrammar.Rule.Basic

/-! A rule set gives every named rule its grammar. The separator of paths, the reach of bracketed
strings, and the grammars of queries and scripts can be chosen. -/
namespace CommandGrammar

structure Options where
  /-- What stands between the names of a path. -/
  separator : Text := ['.']
  /-- Bracketed strings may go over several lines. -/
  multiline : Bool := false
  deriving DecidableEq, Repr

structure RuleSet extends Options where
  query : Grammar Element := Fragment.expression
  script : Grammar Element := Fragment.script

namespace Options
open Fragment

/-- The rules with the query language's own expressions and scripts as inputs. -/
def rules (o : Options) : RuleSet := { toOptions := o }

def declaration (o : Options) : Grammar Element :=
  ((name o.multiline).map Element.declaration).withLabel "<name>"

/-- A name that refers to something of the given categories. -/
def reference (o : Options) (symbols : SymbolSet) : Grammar Element :=
  (((name o.multiline).map fun n => Element.reference n symbols).withHint symbols).withLabel
    symbols.label

def qualifiedName (o : Options) : Grammar Element :=
  (path o.declaration o.declaration o.separator Placeholder.declaration.element).withLabel
    "<qualified_name>"

/-- A chain of references; those behind a separator may have other categories. -/
def referencePath (o : Options) (head rest : SymbolSet) (label : String) : Grammar Element :=
  (path (o.reference head) (o.reference rest) o.separator
    (Placeholder.reference rest).element).withLabel label

def bracketedString (o : Options) : Grammar Element :=
  ((bracketedRun o.multiline).map (.literal .string)).withLabel "<bracketed-string>"

def wildcardedOrName (o : Options) : Grammar Element := .first [wildcarded, o.declaration]

/-- A name, a separator, and a name that may have wildcards. -/
def qualifiedWildcarded (o : Options) : Grammar Element :=
  (Grammar.seq3 o.declaration (.text o.separator) o.wildcardedOrName).map fun (q, d, s) =>
    .path q d s

def wildcardedPath (o : Options) : Grammar Element :=
  (Grammar.first [.guarded o.qualifiedWildcarded o.qualifiedWildcarded,
    o.wildcardedOrName]).withLabel "<qualified_wildcarded_name>"

end Options

namespace RuleSet
open Fragment

def standard : RuleSet := Options.rules {}

def grammar (rs : RuleSet) : Rule → Grammar Element
  | .rawGuidLiteral => rawGuid
  | .guidLiteral => guid
  | .stringLiteral => string
  | .guidOrString => guidOrString
  | .bracketedStringLiteral => rs.bracketedString
  | .value => value
  | .type => type
  | .nameDeclaration => rs.declaration
  | .qualifiedName => rs.qualifiedName
  | .columnReference => rs.reference (.single .column)
  | .tableReference => rs.reference (.single .table)
  | .externalTableReference => rs.reference (.single .externalTable)
  | .materializedViewReference => rs.reference (.single .materializedView)
  | .entityGroupReference => rs.reference (.single .entityGroup)
  | .databaseReference => rs.reference (.single .database)
  | .clusterReference => rs.reference (.single .cluster)
  | .functionReference => rs.reference (.single .databaseFunction)
  | .databaseOrTableReference => rs.reference .databaseOrTable
  | .databaseTablePath => rs.referencePath .databaseOrTable (.single .table) "<database_table>"
  | .databaseOrTableOrColumnReference => rs.reference .databaseOrTableOrColumn
  | .databaseTableColumnPath =>
    rs.referencePath .databaseOrTableOrColumn .databaseOrTableOrColumn "<database_table_column>"
  | .tableOrColumnReference => rs.reference .tableOrColumn
  | .tableColumnPath => rs.referencePath .tableOrColumn .tableOrColumn "<table_column>"
  | .wildcardedName => wildcarded
  | .qualifiedWildcardedName => rs.wildcardedPath
  | .functionDeclaration => function
  | .functionBody => bodyElement
  | .queryInput => rs.query
  | .scriptInput => rs.script
  | .inputText => inputText
  | .bracketedInputText => bracketedInputText

/-- The grammar of a rule with its placeholder to fall back on. -/
def required (rs : RuleSet) (r : Rule) : Grammar Element :=
  (rs.grammar r).required r.placeholder.element

/-- The categories to offer where any of some rules could start. -/
def completion (rs : RuleSet) (candidates : List Rule) : SymbolSet :=
  ((candidates.map fun r => (rs.grammar r).hint).foldl (· ∪ ·) Hint.none).symbols

end RuleSet
end CommandGrammar
