import CommandGrammar.Text.Basic

/-! Kinds of tokens and of tree nodes. Token kinds come first, up to the end marker; the last kind is
not in use. -/
namespace CommandGrammar

inductive Kind where
  | whitespace | lineComment | identifier | wildcardedIdentifier | stringLiteral | longLiteral
  | realLiteral | booleanLiteral | guidLiteral | rawGuidLiteral | inputText | dot | comma | colon
  | semicolon | equal | equalEqual | bangEqual | lessThan | greaterThan | plus | minus | asterisk
  | slash | bar | openParen | closeParen | openBracket | closeBracket | openBrace | closeBrace
  | letKeyword | badToken | endOfText | tokenName | bracketedName | bracedName | wildcardedName
  | quotedName | bracketedStringName | nameDeclaration | nameReference | pathExpression
  | guidLiteralExpression | stringLiteralExpression | longLiteralExpression
  | realLiteralExpression | booleanLiteralExpression | primitiveTypeExpression
  | functionParameter | functionParameters | functionBody | functionDeclaration
  | expressionStatement | letStatement | statementList | reserved
  deriving DecidableEq, Repr

namespace Kind

/-- Every kind, in the order of the numbers. -/
def all : List Kind := [
  .whitespace, .lineComment, .identifier, .wildcardedIdentifier, .stringLiteral, .longLiteral,
  .realLiteral, .booleanLiteral, .guidLiteral, .rawGuidLiteral, .inputText, .dot, .comma, .colon,
  .semicolon, .equal, .equalEqual, .bangEqual, .lessThan, .greaterThan, .plus, .minus, .asterisk,
  .slash, .bar, .openParen, .closeParen, .openBracket, .closeBracket, .openBrace, .closeBrace,
  .letKeyword, .badToken, .endOfText, .tokenName, .bracketedName, .bracedName, .wildcardedName,
  .quotedName, .bracketedStringName, .nameDeclaration, .nameReference, .pathExpression,
  .guidLiteralExpression, .stringLiteralExpression, .longLiteralExpression,
  .realLiteralExpression, .booleanLiteralExpression, .primitiveTypeExpression,
  .functionParameter, .functionParameters, .functionBody, .functionDeclaration,
  .expressionStatement, .letStatement, .statementList, .reserved
]

/-- Position in `all`. -/
def number (k : Kind) : Nat := all.idxOf k

def name : Kind → String
  | .whitespace => "WHITESPACE"
  | .lineComment => "LINE_COMMENT"
  | .identifier => "IDENTIFIER"
  | .wildcardedIdentifier => "WILDCARDED_IDENTIFIER"
  | .stringLiteral => "STRING_LITERAL"
  | .longLiteral => "LONG_LITERAL"
  | .realLiteral => "REAL_LITERAL"
  | .booleanLiteral => "BOOLEAN_LITERAL"
  | .guidLiteral => "GUID_LITERAL"
  | .rawGuidLiteral => "RAW_GUID_LITERAL"
  | .inputText => "INPUT_TEXT"
  | .dot => "DOT"
  | .comma => "COMMA"
  | .colon => "COLON"
  | .semicolon => "SEMICOLON"
  | .equal => "EQUAL"
  | .equalEqual => "EQUAL_EQUAL"
  | .bangEqual => "BANG_EQUAL"
  | .lessThan => "LESS_THAN"
  | .greaterThan => "GREATER_THAN"
  | .plus => "PLUS"
  | .minus => "MINUS"
  | .asterisk => "ASTERISK"
  | .slash => "SLASH"
  | .bar => "BAR"
  | .openParen => "OPEN_PAREN"
  | .closeParen => "CLOSE_PAREN"
  | .openBracket => "OPEN_BRACKET"
  | .closeBracket => "CLOSE_BRACKET"
  | .openBrace => "OPEN_BRACE"
  | .closeBrace => "CLOSE_BRACE"
  | .letKeyword => "LET_KW"
  | .badToken => "BAD_TOKEN"
  | .endOfText => "END_OF_TEXT"
  | .tokenName => "TOKEN_NAME"
  | .bracketedName => "BRACKETED_NAME"
  | .bracedName => "BRACED_NAME"
  | .wildcardedName => "WILDCARDED_NAME"
  | .quotedName => "QUOTED_NAME"
  | .bracketedStringName => "BRACKETED_STRING_NAME"
  | .nameDeclaration => "NAME_DECLARATION"
  | .nameReference => "NAME_REFERENCE"
  | .pathExpression => "PATH_EXPRESSION"
  | .guidLiteralExpression => "GUID_LITERAL_EXPRESSION"
  | .stringLiteralExpression => "STRING_LITERAL_EXPRESSION"
  | .longLiteralExpression => "LONG_LITERAL_EXPRESSION"
  | .realLiteralExpression => "REAL_LITERAL_EXPRESSION"
  | .booleanLiteralExpression => "BOOLEAN_LITERAL_EXPRESSION"
  | .primitiveTypeExpression => "PRIMITIVE_TYPE_EXPRESSION"
  | .functionParameter => "FUNCTION_PARAMETER"
  | .functionParameters => "FUNCTION_PARAMETERS"
  | .functionBody => "FUNCTION_BODY"
  | .functionDeclaration => "FUNCTION_DECLARATION"
  | .expressionStatement => "EXPRESSION_STATEMENT"
  | .letStatement => "LET_STATEMENT"
  | .statementList => "STATEMENT_LIST"
  | .reserved => "__LAST"

def ofName? (s : String) : Option Kind := all.find? fun k => k.name == s

/-- Kinds of the text between tokens. -/
def isTrivia (k : Kind) : Bool := k == .whitespace || k == .lineComment

def isKeyword (k : Kind) : Bool := k == .letKeyword

def isPunctuation (k : Kind) : Bool :=
  Kind.dot.number ≤ k.number && k.number ≤ Kind.closeBrace.number

def isLiteral : Kind → Bool
  | .stringLiteral | .longLiteral | .realLiteral | .booleanLiteral | .guidLiteral
  | .rawGuidLiteral => true
  | _ => false

def isToken (k : Kind) : Bool := k.number ≤ Kind.endOfText.number

/-- A keyword may also be used as a name. -/
def isIdentifierLike (k : Kind) : Bool := k == .identifier || k.isKeyword

/-- The one spelling of a kind that has only one. -/
def fixedText? : Kind → Option Text
  | .dot => some ['.']
  | .comma => some [',']
  | .colon => some [':']
  | .semicolon => some [';']
  | .equal => some ['=']
  | .equalEqual => some ['=', '=']
  | .bangEqual => some ['!', '=']
  | .lessThan => some ['<']
  | .greaterThan => some ['>']
  | .plus => some ['+']
  | .minus => some ['-']
  | .asterisk => some ['*']
  | .slash => some ['/']
  | .bar => some ['|']
  | .openParen => some ['(']
  | .closeParen => some [')']
  | .openBracket => some ['[']
  | .closeBracket => some [']']
  | .openBrace => some ['{']
  | .closeBrace => some ['}']
  | .letKeyword => some ['l', 'e', 't']
  | _ => none

end Kind
end CommandGrammar
