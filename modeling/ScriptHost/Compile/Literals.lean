import ScriptHost.Compile.Catalog

/-!
The string literals of a submission, each once, in the order in which the text first has them.
-/

namespace ScriptHost.Literals

mutual

def expr (found : List String) : Expr → List String
  | .int _ _ => found
  | .str _ v => v :: found
  | .bool _ _ => found
  | .nil _ => found
  | .var _ _ => found
  | .array _ items => exprs found items
  | .index _ target i => expr (expr found target) i
  | .call _ _ args => exprs found args
  | .unary _ _ operand => expr found operand
  | .binary _ _ lhs rhs => expr (expr found lhs) rhs
  | .logic _ _ lhs rhs => expr (expr found lhs) rhs

def exprs (found : List String) : List Expr → List String
  | [] => found
  | e :: es => exprs (expr found e) es

end

def target (found : List String) : Target → List String
  | .var _ _ => found
  | .index _ t i => expr (expr found t) i

mutual

def stmt (found : List String) : Stmt → List String
  | .declare _ _ init => expr found init
  | .assign _ t value => expr (target found t) value
  | .branch _ cond body none => stmts (expr found cond) body
  | .branch _ cond body (some otherwise) => stmts (stmts (expr found cond) body) otherwise
  | .loop _ cond body => stmts (expr found cond) body
  | .count _ _ first bound body => stmts (expr (expr found first) bound) body
  | .give _ none => found
  | .give _ (some e) => expr found e
  | .leave _ => found
  | .again _ => found
  | .block _ body => stmts found body
  | .eval _ e => expr found e

def stmts (found : List String) : List Stmt → List String
  | [] => found
  | x :: xs => stmts (stmt found x) xs

end

def ofCatalog (c : Catalog) : List String :=
  (c.definitions.foldl (fun found d => stmts found d.decl.body) []).reverse.eraseDups

end ScriptHost.Literals
