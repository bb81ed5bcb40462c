import CommandGrammar.Tree.Placeholder

/-! The named rules. -/
namespace CommandGrammar

inductive Rule where
  | rawGuidLiteral | guidLiteral | stringLiteral | guidOrString | bracketedStringLiteral | value
  | type | nameDeclaration | qualifiedName | columnReference | tableReference
  | externalTableReference | materializedViewReference | entityGroupReference | databaseReference
  | clusterReference | functionReference | databaseOrTableReference | databaseTablePath
  | databaseOrTableOrColumnReference | databaseTableColumnPath | tableOrColumnReference
  | tableColumnPath | wildcardedName | qualifiedWildcardedName | functionDeclaration | functionBody
  | queryInput | scriptInput | inputText | bracketedInputText
  deriving DecidableEq, Repr

namespace Rule

def all : List Rule :=
  [.rawGuidLiteral, .guidLiteral, .stringLiteral, .guidOrString, .bracketedStringLiteral, .value,
   .type, .nameDeclaration, .qualifiedName, .columnReference, .tableReference,
   .externalTableReference, .materializedViewReference, .entityGroupReference, .databaseReference,
   .clusterReference, .functionReference, .databaseOrTableReference, .databaseTablePath,
   .databaseOrTableOrColumnReference, .databaseTableColumnPath, .tableOrColumnReference,
   .tableColumnPath, .wildcardedName, .qualifiedWildcardedName, .functionDeclaration, .functionBody,
   .queryInput, .scriptInput, .inputText, .bracketedInputText]

def name : Rule → String
  | .rawGuidLiteral => "RawGuidLiteral"
  | .guidLiteral => "GuidLiteral"
  | .stringLiteral => "StringLiteral"
  | .guidOrString => "AnyGuidLiteralOrString"
  | .bracketedStringLiteral => "BracketedStringLiteral"
  | .value => "Value"
  | .type => "Type"
  | .nameDeclaration => "NameDeclaration"
  | .qualifiedName => "QualifiedNameDeclaration"
  | .columnReference => "ColumnNameReference"
  | .tableReference => "TableNameReference"
  | .externalTableReference => "ExternalTableNameReference"
  | .materializedViewReference => "MaterializedViewNameReference"
  | .entityGroupReference => "EntityGroups"
  | .databaseReference => "DatabaseNameReference"
  | .clusterReference => "ClusterNameReference"
  | .functionReference => "DatabaseFunctionNameReference"
  | .databaseOrTableReference => "DatabaseOrTableNameReference"
  | .databaseTablePath => "DatabaseTableNameReference"
  | .databaseOrTableOrColumnReference => "DatabaseOrTableOrColumnNameReference"
  | .databaseTableColumnPath => "DatabaseTableColumnNameReference"
  | .tableOrColumnReference => "TableOrColumnNameReference"
  | .tableColumnPath => "TableColumnNameReference"
  | .wildcardedName => "WildcardedNameDeclaration"
  | .qualifiedWildcardedName => "QualifiedWildcardedNameDeclaration"
  | .functionDeclaration => "FunctionDeclaration"
  | .functionBody => "FunctionBody"
  | .queryInput => "QueryInput"
  | .scriptInput => "ScriptInput"
  | .inputText => "InputText"
  | .bracketedInputText => "BracketedInputText"

def ofName? (s : String) : Option Rule := all.find? fun r => r.name == s

/-- What stands in where a rule is required and does not match. -/
def placeholder : Rule → Placeholder
  | .rawGuidLiteral | .guidLiteral | .value => .value
  | .stringLiteral | .guidOrString | .bracketedStringLiteral => .string
  | .type => .type
  | .nameDeclaration | .qualifiedName | .wildcardedName | .qualifiedWildcardedName => .declaration
  | .functionDeclaration => .function
  | .functionBody => .body
  | .queryInput => .expression
  | .scriptInput => .statement
  | .inputText | .bracketedInputText => .inputText
  | .columnReference => .reference (.single .column)
  | .tableReference => .reference (.single .table)
  | .externalTableReference => .reference (.single .externalTable)
  | .materializedViewReference => .reference (.single .materializedView)
  | .entityGroupReference => .reference (.single .entityGroup)
  | .databaseReference => .reference (.single .database)
  | .clusterReference => .reference (.single .cluster)
  | .functionReference => .reference (.single .databaseFunction)
  | .databaseOrTableReference | .databaseTablePath => .reference .databaseOrTable
  | .databaseOrTableOrColumnReference | .databaseTableColumnPath =>
    .reference .databaseOrTableOrColumn
  | .tableOrColumnReference | .tableColumnPath => .reference .tableOrColumn

end Rule
end CommandGrammar
