/-!
# Kinds of tokens

The kind of a token says which grammar symbol it is; what a literal or a name holds is kept apart from it. Keywords, operators and
punctuation have one spelling each.
-/

namespace C0Stack.Token

/-- The kind of a token. -/
inductive Kind where
  | integer
  | double
  | string
  | name
  | kwFn
  | kwLet
  | kwConst
  | kwAs
  | kwWhile
  | kwIf
  | kwElse
  | kwReturn
  | kwBreak
  | kwContinue
  | plus
  | minus
  | star
  | slash
  | assign
  | equal
  | notEqual
  | less
  | greater
  | lessEqual
  | greaterEqual
  | arrow
  | openParen
  | closeParen
  | openBrace
  | closeBrace
  | comma
  | colon
  | semicolon
  | endOfFile
deriving DecidableEq, Repr, Inhabited

namespace Kind

/-- The spelling of a keyword, an operator or a punctuation mark. -/
def spelling : Kind → Option String
  | kwFn => some "fn"
  | kwLet => some "let"
  | kwConst => some "const"
  | kwAs => some "as"
  | kwWhile => some "while"
  | kwIf => some "if"
  | kwElse => some "else"
  | kwReturn => some "return"
  | kwBreak => some "break"
  | kwContinue => some "continue"
  | plus => some "+"
  | minus => some "-"
  | star => some "*"
  | slash => some "/"
  | assign => some "="
  | equal => some "=="
  | notEqual => some "!="
  | less => some "<"
  | greater => some ">"
  | lessEqual => some "<="
  | greaterEqual => some ">="
  | arrow => some "->"
  | openParen => some "("
  | closeParen => some ")"
  | openBrace => some "\x7b"
  | closeBrace => some "\x7d"
  | comma => some ","
  | colon => some ":"
  | semicolon => some ";"
  | integer | double | string | name | endOfFile => none

/-- The kinds that are spelled like a name. -/
def keywords : List Kind :=
  [kwFn, kwLet, kwConst, kwAs, kwWhile, kwIf, kwElse, kwReturn, kwBreak, kwContinue]

/-- The keyword that is spelled so. -/
def keyword? (word : String) : Option Kind := keywords.find? fun k => k.spelling == some word

/-- How a message names the kind. -/
def describe : Kind → String
  | integer => "integer literal"
  | double => "double literal"
  | string => "string literal"
  | name => "identifier"
  | endOfFile => "end of file"
  | k => "'" ++ k.spelling.getD "" ++ "'"

end Kind

end C0Stack.Token
