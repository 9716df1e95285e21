import Shading.Location
import Shading.Path
import Shading.Punct

/-!
# Errors

What can go wrong, by cause. Each error has one message; an error may be wrapped in the place
where it arose, any number of times.
-/
namespace Shading

/-- Why a file could not be read. `unread` is a file that nobody has looked at yet. -/
inductive FileError
  | notFound
  | notDirectory
  | isDirectory
  | nameTooLong
  | nulInPath
  | unread (path : Path)
  | other (message : String)
  deriving DecidableEq, Repr

/-- Why text is no token. -/
inductive LexicalError
  | unterminatedComment
  | unterminatedString
  | invalidHexadecimal
  | invalidOctal
  | exponentWithoutDigits
  | invalidIntegerSuffix
  | invalidFloatSuffix
  | unexpectedCharacter (shown : String)
  | other (message : String)
  deriving DecidableEq, Repr

/-- Why a condition has no value. -/
inductive ConditionError
  | empty
  | tooDeep
  | unexpectedEnd
  | unexpectedToken (text : String)
  | unclosedParenthesis
  | divisionByZero
  | unsupportedOperator (op : Punct)
  | definedWithoutName
  | definedParenthesisWithoutName
  | definedUnclosed
  deriving DecidableEq, Repr

/-- Why a directive is rejected. -/
inductive DirectiveError
  | noName
  | unknown (name : String)
  | expectedName (directive : String)
  | functionLike (name : String)
  | malformedInclude
  | raised (message : String)
  | withoutIf (directive : String)
  | afterElse (directive : String)
  | unterminatedIf
  | condition (cause : ConditionError)
  | other (message : String)
  deriving DecidableEq, Repr

/-- Why tokens are no declaration. -/
inductive SyntaxError
  | unclosed (opener : Punct)
  | missingSemicolon
  | unexpected (closer : Punct)
  | other (message : String)
  deriving DecidableEq, Repr

/-- An error of a compilation. -/
inductive CompileError
  | failed (message : String)
  | invalidName (name : String)
  | includeNotFound (name : String) (cause : FileError)
  | noParentDirectory (name : String)
  | searchPathUnsupported (name : String)
  | includeCycle (path : Path)
  | includeTooDeep (name : String) (limit : Nat)
  | expansionTooDeep (name : String) (limit : Nat)
  | lexical (cause : LexicalError)
  | directive (cause : DirectiveError)
  | syntactic (cause : SyntaxError)
  | located (place : Location) (error : CompileError)
  | file (cause : FileError)
  deriving DecidableEq, Repr

/-- A name for messages, in double quotes. -/
def quoted (name : String) : String :=
  "\"" ++ name ++ "\""

/-- The system's text of a file error. -/
def FileError.message : FileError → String
  | notFound => "No such file or directory (os error 2)"
  | notDirectory => "Not a directory (os error 20)"
  | isDirectory => "Is a directory (os error 21)"
  | nameTooLong => "File name too long (os error 36)"
  | nulInPath => "file name contained an unexpected NUL byte"
  | unread path => "File not read yet: " ++ path.text
  | other message => message

/-- The message of a lexical error. -/
def LexicalError.message : LexicalError → String
  | unterminatedComment => "Unterminated comment"
  | unterminatedString => "Unterminated string literal"
  | invalidHexadecimal => "Invalid hexadecimal constant"
  | invalidOctal => "Invalid octal constant"
  | exponentWithoutDigits => "Exponent has no digits"
  | invalidIntegerSuffix => "Invalid suffix on integer constant"
  | invalidFloatSuffix => "Invalid suffix on floating point constant"
  | unexpectedCharacter shown => "Unexpected character " ++ shown
  | other message => message

/-- The message of an error in a condition. -/
def ConditionError.message : ConditionError → String
  | empty => "Expected an expression after #if"
  | tooDeep => "#if expression nested too deeply"
  | unexpectedEnd => "Unexpected end of #if expression"
  | unexpectedToken text => "Unexpected " ++ quoted text ++ " in #if expression"
  | unclosedParenthesis => "Expected \")\" in #if expression"
  | divisionByZero => "Division by zero in #if expression"
  | unsupportedOperator op => "Unsupported operator " ++ quoted op.spelling
  | definedWithoutName => "Expected identifier after defined"
  | definedParenthesisWithoutName => "Expected identifier after defined("
  | definedUnclosed => "Expected \")\" after defined("

/-- The message of a rejected directive. -/
def DirectiveError.message : DirectiveError → String
  | noName => "Invalid preprocessor directive"
  | unknown name => "Unknown preprocessor directive #" ++ name
  | expectedName directive => "Expected identifier after #" ++ directive
  | functionLike name => "Function-like macro " ++ quoted name ++ " is not supported"
  | malformedInclude => "Expected \"file\" or <file> after #include"
  | raised message => "#error " ++ message
  | withoutIf directive => "#" ++ directive ++ " without #if"
  | afterElse directive => "#" ++ directive ++ " after #else"
  | unterminatedIf => "Unterminated #if at end of file"
  | condition cause => cause.message
  | other message => message

/-- The message of a syntax error. -/
def SyntaxError.message : SyntaxError → String
  | unclosed opener => "Unclosed " ++ quoted opener.spelling
  | missingSemicolon => "Expected \";\" at end of declaration"
  | unexpected closer => "Unexpected " ++ quoted closer.spelling
  | other message => message

namespace CompileError

/-- The message of an error, with the places that wrap it in front. -/
def message : CompileError → String
  | failed message => message
  | invalidName name => "Define name " ++ quoted name ++ " is not a valid identifier"
  | includeNotFound name cause =>
    "Could not load include " ++ quoted name ++ ": " ++ cause.message
  | noParentDirectory name =>
    "Cannot resolve local include " ++ quoted name ++ ": including source is not a file"
  | searchPathUnsupported name => "Could not resolve " ++ quoted name ++ " in search path."
  | includeCycle path => "Include cycle detected for " ++ quoted path.text
  | includeTooDeep name limit =>
    "Include depth limit of " ++ toString limit ++ " exceeded while including " ++ quoted name
  | expansionTooDeep name limit =>
    "Macro " ++ quoted name ++ " exceeds the expansion limit of " ++ toString limit
  | lexical cause => cause.message
  | directive cause => cause.message
  | syntactic cause => cause.message
  | located place error => place.describe error.message
  | file cause => "I/O error: " ++ cause.message

/-- The error without the places around it. -/
def root : CompileError → CompileError
  | located _ error => error.root
  | error => error

end CompileError

/-- The types of constants that can be too large. -/
inductive ConstantType
  | int | uint | float | double
  deriving DecidableEq, Repr

/-- The name of a constant's type in warnings. -/
def ConstantType.name : ConstantType → String
  | int => "integer"
  | uint => "unsigned"
  | float => "float"
  | double => "double"

/-- A warning of a compilation. -/
inductive Warning
  | failed (message : String)
  | constantOverflow (type : ConstantType)
  | directive (message : String)
  deriving DecidableEq, Repr

/-- The message of a warning. -/
def Warning.message : Warning → String
  | failed message => message
  | constantOverflow type => "Overflow in " ++ type.name ++ " constant"
  | directive message => "#warning " ++ message

end Shading
