/-! What the grammar takes at a point of a source decides how the characters there are read. A
newline is a terminator only where a statement or an item of a list may end, a word is a keyword
only where that keyword may stand, and an opening brace after a condition is that of the body. A
value of this type holds, for one point, those of these questions that the rules of Go ask. -/

namespace GoGraft.Go

structure Accepts where
  /-- A newline or a semicolon may stand here. -/
  terminator : Bool := false
  /-- The opening brace of a body may stand here. -/
  body : Bool := false
  /-- One of the marks `++`, `--` and `<-` of a simple statement may stand here. -/
  step : Bool := false
  /-- A statement may start here, so the words that start one are keywords. -/
  statement : Bool := false
  /-- An operand may start here, so the words that name constants and allocators are keywords. -/
  operand : Bool := false
  /-- An item of a file may start here, so `package` and `import` are keywords. -/
  item : Bool := false
  /-- One of the words `case` and `default` may stand here. -/
  clause : Bool := false
  /-- The word `range` may stand here. -/
  range : Bool := false
  /-- The guard `.(type)` of a type switch may stand here. -/
  guard : Bool := false
  deriving DecidableEq, Repr

namespace Accepts

def nothing : Accepts := {}

def union (first second : Accepts) : Accepts where
  terminator := first.terminator || second.terminator
  body := first.body || second.body
  step := first.step || second.step
  statement := first.statement || second.statement
  operand := first.operand || second.operand
  item := first.item || second.item
  clause := first.clause || second.clause
  range := first.range || second.range
  guard := first.guard || second.guard

instance : Union Accepts := ⟨union⟩

end Accepts

end GoGraft.Go
