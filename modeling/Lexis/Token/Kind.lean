/-
  Lexis.Token.Kind

  The kinds of token, their names and their order.

  The order of the constructors is the order of the kinds, and `Kind.ordinal` numbers them from 0.
  The set is that of a larger language than the scanner knows: a reserved kind has a name and a
  place in the order, but no text is scanned as a token of it.
-/

namespace Lexis

/-- What a token is. Constructors that start with `kw` are the kinds of keywords. -/
inductive Kind where
  | leftParen
  | rightParen
  | leftBrace
  | rightBrace
  | comma
  | dot
  | minus
  | plus
  | semicolon
  | slash
  | star
  | percentage
  | exponent
  | bitwiseAnd
  | bitwiseLeftShift
  | bitwiseNot
  | bitwiseOr
  | bitwiseRightShift
  | bitwiseXor
  | logicalAnd
  | logicalNot
  | logicalOr
  | assign
  | assignPlus
  | assignSlash
  | assignExponent
  | assignDoubleSlash
  | assignPercentage
  | assignStar
  | assignMinus
  | assignBitwiseAnd
  | assignBitwiseLeftShift
  | assignBitwiseOr
  | assignBitwiseRightShift
  | assignBitwiseXor
  | equal
  | equalEqual
  | greaterThan
  | greaterThanEqual
  | lessThan
  | lessThanEqual
  | notEqual
  | bangEqual
  | bang
  | identifier
  | number
  | string
  | kwAnd
  | kwAs
  | kwAssert
  | kwBreak
  | kwClass
  | kwContinue
  | kwContract
  | kwDef
  | kwDel
  | kwElif
  | kwElse
  | kwExcept
  | kwFalse
  | kwFinally
  | kwFor
  | kwFrom
  | kwFun
  | kwGlobal
  | kwIf
  | kwImport
  | kwIn
  | kwIs
  | kwLambda
  | kwLet
  | kwNil
  | kwNone
  | kwNot
  | kwOr
  | kwPass
  | kwPrint
  | kwRaise
  | kwReturn
  | kwSuper
  | kwThis
  | kwTrue
  | kwTry
  | kwVar
  | kwWhile
  | kwWith
  | kwYield
  | error
  | eof
  deriving DecidableEq, Inhabited

namespace Kind

/-- Place of a kind in the order of kinds, from 0. -/
def ordinal (k : Kind) : Nat :=
  k.ctorIdx

/-- Every kind once, in order. -/
def all : List Kind :=
  [.leftParen, .rightParen, .leftBrace, .rightBrace, .comma, .dot, .minus, .plus, .semicolon,
   .slash, .star, .percentage, .exponent, .bitwiseAnd, .bitwiseLeftShift, .bitwiseNot,
   .bitwiseOr, .bitwiseRightShift, .bitwiseXor, .logicalAnd, .logicalNot, .logicalOr, .assign,
   .assignPlus, .assignSlash, .assignExponent, .assignDoubleSlash, .assignPercentage,
   .assignStar, .assignMinus, .assignBitwiseAnd, .assignBitwiseLeftShift, .assignBitwiseOr,
   .assignBitwiseRightShift, .assignBitwiseXor, .equal, .equalEqual, .greaterThan,
   .greaterThanEqual, .lessThan, .lessThanEqual, .notEqual, .bangEqual, .bang, .identifier,
   .number, .string, .kwAnd, .kwAs, .kwAssert, .kwBreak, .kwClass, .kwContinue, .kwContract,
   .kwDef, .kwDel, .kwElif, .kwElse, .kwExcept, .kwFalse, .kwFinally, .kwFor, .kwFrom, .kwFun,
   .kwGlobal, .kwIf, .kwImport, .kwIn, .kwIs, .kwLambda, .kwLet, .kwNil, .kwNone, .kwNot, .kwOr,
   .kwPass, .kwPrint, .kwRaise, .kwReturn, .kwSuper, .kwThis, .kwTrue, .kwTry, .kwVar, .kwWhile,
   .kwWith, .kwYield, .error, .eof]

/-- Name of a kind as it is written in dumps. -/
def name : Kind → String
  | .leftParen => "LEFT_PAREN"
  | .rightParen => "RIGHT_PAREN"
  | .leftBrace => "LEFT_BRACE"
  | .rightBrace => "RIGHT_BRACE"
  | .comma => "COMMA"
  | .dot => "DOT"
  | .minus => "MINUS"
  | .plus => "PLUS"
  | .semicolon => "SEMICOLON"
  | .slash => "SLASH"
  | .star => "STAR"
  | .percentage => "PERCENTAGE"
  | .exponent => "EXPONENT"
  | .bitwiseAnd => "BITWISE_AND"
  | .bitwiseLeftShift => "BITWISE_LEFT_SHIFT"
  | .bitwiseNot => "BITWISE_NOT"
  | .bitwiseOr => "BITWISE_OR"
  | .bitwiseRightShift => "BITWISE_RIGHT_SHIFT"
  | .bitwiseXor => "BITWISE_XOR"
  | .logicalAnd => "LOGICAL_AND"
  | .logicalNot => "LOGICAL_NOT"
  | .logicalOr => "LOGICAL_OR"
  | .assign => "ASSIGN"
  | .assignPlus => "ASSIGN_PLUS"
  | .assignSlash => "ASSIGN_SLASH"
  | .assignExponent => "ASSIGN_EXPONENT"
  | .assignDoubleSlash => "ASSIGN_DOUBLE_SLASH"
  | .assignPercentage => "ASSIGN_PERCENTAGE"
  | .assignStar => "ASSIGN_STAR"
  | .assignMinus => "ASSIGN_MINUS"
  | .assignBitwiseAnd => "ASSIGN_BITWISE_AND"
  | .assignBitwiseLeftShift => "ASSIGN_BITWISE_LEFT_SHIFT"
  | .assignBitwiseOr => "ASSIGN_BITWISE_OR"
  | .assignBitwiseRightShift => "ASSIGN_BITWISE_RIGHT_SHIFT"
  | .assignBitwiseXor => "ASSIGN_BITWISE_XOR"
  | .equal => "EQUAL"
  | .equalEqual => "EQUAL_EQUAL"
  | .greaterThan => "GREATER_THAN"
  | .greaterThanEqual => "GREATER_THAN_EQUAL"
  | .lessThan => "LESS_THAN"
  | .lessThanEqual => "LESS_THAN_EQUAL"
  | .notEqual => "NOT_EQUAL"
  | .bangEqual => "BANG_EQUAL"
  | .bang => "BANG"
  | .identifier => "IDENTIFIER"
  | .number => "NUMBER"
  | .string => "STRING"
  | .kwAnd => "AND"
  | .kwAs => "AS"
  | .kwAssert => "ASSERT"
  | .kwBreak => "BREAK"
  | .kwClass => "CLASS"
  | .kwContinue => "CONTINUE"
  | .kwContract => "CONTRACT"
  | .kwDef => "DEF"
  | .kwDel => "DEL"
  | .kwElif => "ELIF"
  | .kwElse => "ELSE"
  | .kwExcept => "EXCEPT"
  | .kwFalse => "FALSE"
  | .kwFinally => "FINALLY"
  | .kwFor => "FOR"
  | .kwFrom => "FROM"
  | .kwFun => "FUN"
  | .kwGlobal => "GLOBAL"
  | .kwIf => "IF"
  | .kwImport => "IMPORT"
  | .kwIn => "IN"
  | .kwIs => "IS"
  | .kwLambda => "LAMBDA"
  | .kwLet => "LET"
  | .kwNil => "NIL"
  | .kwNone => "NONE"
  | .kwNot => "NOT"
  | .kwOr => "OR"
  | .kwPass => "PASS"
  | .kwPrint => "PRINT"
  | .kwRaise => "RAISE"
  | .kwReturn => "RETURN"
  | .kwSuper => "SUPER"
  | .kwThis => "THIS"
  | .kwTrue => "TRUE"
  | .kwTry => "TRY"
  | .kwVar => "VAR"
  | .kwWhile => "WHILE"
  | .kwWith => "WITH"
  | .kwYield => "YIELD"
  | .error => "ERROR"
  | .eof => "EOF"

/-- The kind of a given name. -/
def ofName? (s : String) : Option Kind :=
  all.find? (·.name == s)

/-- Whether a kind is that of a keyword; these kinds stand together in the order. -/
def isKeyword (k : Kind) : Bool :=
  kwAnd.ordinal ≤ k.ordinal && k.ordinal ≤ kwYield.ordinal

/-- Whether a kind is set aside for syntax that the scanner does not know. -/
def isReserved : Kind → Bool
  | .percentage | .exponent | .bitwiseAnd | .bitwiseLeftShift | .bitwiseNot | .bitwiseOr
  | .bitwiseRightShift | .bitwiseXor | .logicalAnd | .logicalNot | .logicalOr | .assign
  | .assignPlus | .assignSlash | .assignExponent | .assignDoubleSlash | .assignPercentage
  | .assignStar | .assignMinus | .assignBitwiseAnd | .assignBitwiseLeftShift | .assignBitwiseOr
  | .assignBitwiseRightShift | .assignBitwiseXor | .notEqual | .kwAs | .kwAssert | .kwBreak
  | .kwContinue | .kwContract | .kwDel | .kwElif | .kwExcept | .kwFinally | .kwFrom | .kwGlobal
  | .kwImport | .kwIn | .kwIs | .kwLambda | .kwNone | .kwNot | .kwPass | .kwRaise | .kwTry
  | .kwWith | .kwYield => true
  | _ => false

/-- Kinds in order, equal kinds as often as they were given. -/
def sort (ks : List Kind) : List Kind :=
  ks.mergeSort (fun a b => a.ordinal ≤ b.ordinal)

/-! ## The order -/

theorem ordinal_lt (k : Kind) : k.ordinal < all.length := by
  cases k <;> decide

theorem all_ordinal (k : Kind) : all[k.ordinal]? = some k := by
  cases k <;> rfl

theorem mem_all (k : Kind) : k ∈ all :=
  List.mem_of_getElem? (all_ordinal k)

theorem ordinal_inj {a b : Kind} (h : a.ordinal = b.ordinal) : a = b :=
  Option.some.inj ((all_ordinal a).symm.trans (h ▸ all_ordinal b))

end Kind

end Lexis
