import C0Stack.Stmt.Basic

/-!
# Functions and compilation units

The syntax trees of a function definition and of a whole program text: declarations, then functions. As in statements, a fault
stands where the text could not be read on.
-/

namespace C0Stack

/-- A parameter of a function. -/
structure Param where
  constant : Bool
  name : Ident
  ty : Ident
deriving DecidableEq, Repr, Inhabited

/-- The definition of a function, whose first word is at `pos`. -/
inductive Function where
  /-- A definition; the closing brace of its body is at `close`. -/
  | defn (pos : Position) (name : Ident) (params : List Param) (returns : Ident) (body : Stmt) (close : Position)
  /-- A definition whose header could not be read on behind these parameters. -/
  | fault (pos : Position) (params : List Param) (error : Diagnostic)
deriving Repr, Inhabited

/-- The place of the first word of the definition. -/
def Function.pos : Function → Position
  | defn pos _ _ _ _ _ => pos
  | fault pos _ _ => pos

/-- A whole program text: the declarations in sequence, the functions, and its end. -/
structure CompilationUnit where
  globals : Stmt
  functions : List Function
  ending : Except Diagnostic Position
deriving Repr

end C0Stack
