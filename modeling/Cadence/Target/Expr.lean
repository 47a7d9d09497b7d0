import Cadence.Target.Token

namespace Cadence.Target

inductive Expr where
  | series (pattern : String)
  | number (x : Float)
  | text (s : String)
  | flag (b : Bool)
  | call (function : String) (args : List Expr)

namespace Expr

mutual

def tokens : Expr → List Token
  | series pattern => [.word pattern]
  | number x => [.number x]
  | text s => [.text s]
  | flag b => [.flag b]
  | call function args => .word function :: .opening :: argTokens args ++ [.closing]

def argTokens : List Expr → List Token
  | [] => []
  | [arg] => arg.tokens
  | arg :: args => arg.tokens ++ .comma :: argTokens args

end

mutual

-- The patterns of an expression from left to right.
def leaves : Expr → List String
  | series pattern => [pattern]
  | call _ args => argLeaves args
  | _ => []

def argLeaves : List Expr → List String
  | [] => []
  | arg :: args => arg.leaves ++ argLeaves args

end

end Expr

end Cadence.Target
