import PageScript.Token

/-!
Why a list of tokens is not a program.
-/
namespace PageScript

/-- What the grammar asks for at a place where only one thing may come. -/
inductive Expectation where
  | variableName
  | assignment
  | functionName
  | openParameters
  | parameterName
  | closeParameters
  | openBlock
  | closeBlock
  | inWord
  | closeArguments
  | closeGroup
  | closeArray
  | closeTemplate
  | closeObject
  | propertyName
  | propertyColon
deriving DecidableEq

/-- The cause of a syntax error. -/
inductive SyntaxFault where
  | expected (what : Expectation)
  /-- A character or string that the lexemes have no place for, where an expression should begin. -/
  | lexical (text : String)
  | unexpectedEnd
  | unexpected (text : String)
  | numberTooLong
  | nestingTooDeep
deriving DecidableEq

/-- A syntax error, with the place of the token at which it was noticed. -/
structure SyntaxError where
  fault : SyntaxFault
  line : Int
  column : Int
deriving DecidableEq

def Expectation.message : Expectation → String
  | variableName => "Expected variable name"
  | assignment => "Expected '=' after variable name"
  | functionName => "Expected function name"
  | openParameters => "Expected '(' after function name"
  | parameterName => "Expected parameter name"
  | closeParameters => "Expected ')' after parameters"
  | openBlock => "Expected '\x7b'"
  | closeBlock => "Expected '\x7d'"
  | inWord => "Expected 'in' after loop variable"
  | closeArguments => "Expected ')' after arguments"
  | closeGroup => "Expected ')'"
  | closeArray => "Expected ']'"
  | closeTemplate => "Expected '\x7d\x7d'"
  | closeObject => "Expected '\x7d' after object literal"
  | propertyName => "Expected property name"
  | propertyColon => "Expected ':' after property name"

def SyntaxFault.message : SyntaxFault → String
  | expected what => what.message
  | lexical text => describeErrorText text
  | unexpectedEnd => "Unexpected end of input"
  | unexpected text => "Unexpected token: " ++ text
  | numberTooLong => "Number literal too long"
  | nestingTooDeep => "Nesting too deep to parse"

end PageScript
