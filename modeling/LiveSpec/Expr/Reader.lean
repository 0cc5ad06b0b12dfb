import LiveSpec.Expr.Basic
import LiveSpec.Expr.Token

/-!
# Reading an expression

The grammar, on tokens:

* a statement is a variable, an equals sign and an expression, or an expression alone;
* an expression is a primary and any number of steps, each a point and a name or an expression
  between brackets;
* a primary is a variable, a name, a name with arguments between parentheses, a text or a number;
  the names `true`, `false` and `null` are literals.

The recursion is bounded by a number that every step takes one from. Reading takes at most three
steps for each token, so `Statement.read` gives it four for each.
-/

namespace LiveSpec

namespace Expr

mutual
/-- An expression at the start of the tokens, and the tokens after it. -/
def read : Nat → List Token → Except SyntaxFault (Expr × List Token)
  | 0, _ => .error .empty
  | fuel + 1, ts =>
    match primary fuel ts with
    | .error e => .error e
    | .ok (e, rest) => steps fuel e rest
/-- The steps that follow an expression. -/
def steps : Nat → Expr → List Token → Except SyntaxFault (Expr × List Token)
  | 0, _, _ => .error .empty
  | fuel + 1, e, ts =>
    match ts with
    | .dot :: .ident name :: rest => steps fuel (.field e name) rest
    | .dot :: _ => .error .noFieldName
    | .leftBracket :: rest =>
      match read fuel rest with
      | .error f => .error f
      | .ok (key, .rightBracket :: rest) => steps fuel (.index e key) rest
      | .ok (_, t :: _) => .error (.expected .rightBracket (some t))
      | .ok (_, []) => .error (.expected .rightBracket none)
    | rest => .ok (e, rest)
/-- A primary at the start of the tokens. -/
def primary : Nat → List Token → Except SyntaxFault (Expr × List Token)
  | 0, _ => .error .empty
  | fuel + 1, ts =>
    match ts with
    | [] => .error .empty
    | .variable name :: rest => .ok (.variable name, rest)
    | .text s :: rest => .ok (.literal (.string s), rest)
    | .integer n :: rest => .ok (.literal (.int n), rest)
    | .decimal x :: rest => .ok (.literal (.float x), rest)
    | .ident name :: rest =>
      if name = "true" then .ok (.literal (.bool true), rest)
      else if name = "false" then .ok (.literal (.bool false), rest)
      else if name = "null" then .ok (.literal .null, rest)
      else
        match rest with
        | .leftParen :: .rightParen :: rest => .ok (.call name [], rest)
        | .leftParen :: rest =>
          match arguments fuel rest with
          | .error e => .error e
          | .ok (args, rest) => .ok (.call name args, rest)
        | rest => .ok (.property name, rest)
    | t :: _ => .error (.unexpected t)
/-- The arguments of a call, at least one, and its closing parenthesis. -/
def arguments : Nat → List Token → Except SyntaxFault (List Expr × List Token)
  | 0, _ => .error .empty
  | fuel + 1, ts =>
    match read fuel ts with
    | .error e => .error e
    | .ok (e, .comma :: rest) =>
      match arguments fuel rest with
      | .error f => .error f
      | .ok (es, rest) => .ok (e :: es, rest)
    | .ok (e, .rightParen :: rest) => .ok ([e], rest)
    | .ok _ => .error .malformedArguments
end

end Expr

namespace Statement

/-- The statement that fills a list of tokens. -/
def ofTokens (ts : List Token) : Except SyntaxFault Statement :=
  let whole (make : Expr → Statement) (ts : List Token) : Except SyntaxFault Statement :=
    match Expr.read (4 * ts.length + 4) ts with
    | .error e => .error e
    | .ok (e, []) => .ok (make e)
    | .ok (_, t :: _) => .error (.trailing t)
  match ts with
  | .variable name :: .equals :: rest => whole (.assign name) rest
  | ts => whole .eval ts

/-- Reads an expression text. -/
def read (s : String) : Except SyntaxFault Statement :=
  match Token.scan s with
  | .error e => .error e
  | .ok ts => ofTokens ts

end Statement
end LiveSpec
