/-
  Lexis.Token.Symbol

  The characters that are tokens by themselves or together with `=`.
-/

import Lexis.Token.Kind

namespace Lexis.Symbol

/-- The kind of a character that is a token whatever follows it. -/
def single? : Char → Option Kind
  | '(' => some .leftParen
  | ')' => some .rightParen
  | '{' => some .leftBrace
  | '}' => some .rightBrace
  | ';' => some .semicolon
  | ',' => some .comma
  | '.' => some .dot
  | '-' => some .minus
  | '+' => some .plus
  | '/' => some .slash
  | '*' => some .star
  | _ => none

/-- The kinds of an operator that may take `=`: alone and with it. -/
def operator? : Char → Option (Kind × Kind)
  | '!' => some (.bang, .bangEqual)
  | '=' => some (.equal, .equalEqual)
  | '<' => some (.lessThan, .lessThanEqual)
  | '>' => some (.greaterThan, .greaterThanEqual)
  | _ => none

end Lexis.Symbol
