import Blockwork.Interpreter.Expressions

/-! What the kinds do that change variables or decide what runs next. -/

namespace Blockwork

namespace Parts

def executeChange (p : Parts (Run Value)) : Run Unit := do
  let name ← p.variable
  let delta ← p.evaluateNumber "DELTA"
  let current ← match ← Run.get name with
    | .null => pure 0.0
    | v => v.asNumber
  Run.set name (.number (current + delta))

def executeAppend (p : Parts (Run Value)) : Run Unit := do
  let name ← p.variable
  let suffix ← p.evaluateText "TEXT"
  let current := match ← Run.get name with
    | .null => ""
    | v => v.display
  Run.set name (.text (current ++ suffix))

def executeSet (p : Parts (Run Value)) : Run Unit := do
  let name ← p.variable
  Run.set name (← p.evaluate "VALUE")

/-! ### Branches -/

def executeArms (p : Parts (Run Value)) (hasElse : Bool) : List Nat → Run Unit
  | [] => if hasElse then Traversal.inBranch (p.execute "ELSE") else pure ()
  | i :: rest => do
    if ← p.evaluateCondition (numbered "IF" i) then
      Traversal.inBranch (p.execute (numbered "DO" i))
    else executeArms p hasElse rest

def executeBranch (p : Parts (Run Value)) (alwaysElse : Bool) : Run Unit := do
  let (count, hasElse) ← p.arms alwaysElse
  p.executeArms hasElse (List.range count)

/-! ### Loops -/

def executeRound (p : Parts (Run Value)) : Run Bool := do
  p.execute "DO"
  return (← Traversal.takeEscape) != .breaking

def repeatCount (p : Parts (Run Value)) : CountSource → Run Float
  | .input => p.evaluateNumber "TIMES"
  | .field => do return (← readNumber (← p.field "TIMES")).value

def executeRepeat (p : Parts (Run Value)) (limit : Nat) (source : CountSource) : Run Unit := do
  let times ← p.repeatCount source
  Traversal.inLoop <| Run.iterate (fun count => do
    if count < times then
      if ← p.executeRound then return some (count + 1.0) else return none
    else return none) limit 0.0

/-- Only a loop that repeats while its condition holds can be left early. In the other mode an
escape stays pending between the rounds. -/
def executeWhileUntil (p : Parts (Run Value)) (limit : Nat) : LoopMode → Run Unit
  | .repeatWhile =>
    Traversal.inLoop <| Run.iterate (fun () => do
      if ← p.evaluateCondition "BOOL" then
        if ← p.executeRound then return some () else return none
      else return none) limit ()
  | .repeatUntil =>
    Traversal.inLoop <| Run.iterate (fun () => do
      if ← p.evaluateCondition "BOOL" then return none
      else
        p.execute "DO"
        return some ()) limit ()

/-- A variable goes from the start to the end by the magnitude of the step, downward if the start
is greater. The rounds may change the variable. -/
def executeRange (p : Parts (Run Value)) (limit : Nat) : Run Unit := do
  let name ← p.variable
  let first ← p.evaluateNumber "FROM"
  let last ← p.evaluateNumber "TO"
  let size := (← p.evaluateNumber "BY").abs
  let step := if first > last then -size else size
  Traversal.inLoop do
    Run.set name (.number first)
    Run.iterate (fun () => do
      let current ← (← Run.get name).asNumber
      if (if step ≥ 0.0 then current ≤ last else current ≥ last) then
        if ← p.executeRound then
          let current ← (← Run.get name).asNumber
          Run.set name (.number (current + step))
          return some ()
        else return none
      else return none) limit ()

def executeItems (p : Parts (Run Value)) (name : String) : List Value → Run Unit
  | [] => pure ()
  | item :: rest => do
    Run.set name item
    if ← p.executeRound then executeItems p name rest

def executeForEach (p : Parts (Run Value)) : Run Unit := do
  let name ← p.variable
  let items ← (← p.evaluate "LIST").asList
  Traversal.inLoop (p.executeItems name items)

def executeFlow (p : Parts (Run Value)) : Run Unit := do
  let escape ← p.option "FLOW" flowOptions
  modify fun c => c.setEscape escape

end Parts

def Kind.evaluate (limit : Nat) (p : Parts (Run Value)) : Kind → Run Value
  | .branch alwaysElse => do
    p.executeBranch alwaysElse
    return .null
  | .repeatTimes source => do
    p.executeRepeat limit source
    return .null
  | .whileUntil => do
    p.executeWhileUntil limit (← p.option "MODE" LoopMode.options)
    return .null
  | .countRange => do
    p.executeRange limit
    return .null
  | .forEach => do
    p.executeForEach
    return .null
  | .flow => do
    p.executeFlow
    return .null
  | .boolean => do return .boolean (← p.boolean)
  | .null => return .null
  | .not => do return .boolean (!(← p.evaluateCondition "BOOL"))
  | .compare => do
    let comparison ← p.option "OP" Comparison.options
    let v ← p.evaluate "A"
    let w ← p.evaluate "B"
    return .boolean (← comparison.holds v w)
  | .junction => do p.evaluateJunction (← p.option "OP" Junction.options)
  | .ternary => p.evaluateTernary
  | .number => do return .number (← readNumber (← p.field "NUM")).value
  | .arithmetic => do
    let operation ← p.option "OP" Operation.options
    let x ← p.evaluateNumber "A"
    let y ← p.evaluateNumber "B"
    return .number (operation.apply x y)
  | .function => do
    let function ← p.option "OP" MathFunction.options
    return .number (function.apply (← p.evaluateNumber "NUM"))
  | .round => do
    let rounding ← p.option "OP" Rounding.options
    return .number (rounding.apply (← p.evaluateNumber "NUM"))
  | .constant => do return .number (← p.option "CONSTANT" constantOptions)
  | .property => do p.evaluateProperty (← p.option "PROPERTY" Property.options)
  | .modulo => do
    let x ← p.evaluateNumber "DIVIDEND"
    let y ← p.evaluateNumber "DIVISOR"
    return .number (Number.remainder x y)
  | .constrain => p.evaluateConstrain
  | .change => do
    p.executeChange
    return .null
  | .text => do return .text (← p.field "TEXT")
  | .join => do
    let count ← p.count ["items"] 2
    let texts ← (List.range count).mapM fun i => p.joinedText (numbered "ADD" i)
    return .text (String.join texts)
  | .append => do
    p.executeAppend
    return .null
  | .textLength => do
    return .number (Float.ofNat (Text.unitCount (← p.evaluateText "VALUE").toList))
  | .textIsEmpty => do return .boolean ((← p.evaluateText "VALUE").isEmpty)
  | .changeCase => do
    let letterCase ← p.option "CASE" LetterCase.options
    return .text (letterCase.apply (← p.evaluateText "TEXT"))
  | .trim => do
    let side ← p.option "MODE" TrimSide.options
    return .text (side.apply (← p.evaluateText "TEXT"))
  | .get => do Run.get (← p.variable)
  | .set => do
    p.executeSet
    return .null
  | .emptyList => return .list []
  | .createList => do
    let count ← p.count ["items"] 3
    return .list (← p.evaluateItems ((List.range count).map (numbered "ADD")))
  | .repeatItem => do
    let item ← p.evaluate "ITEM"
    let count ← p.evaluateNumber "NUM"
    repeatValue item count
  | .listLength => do return .number (Float.ofNat (← (← p.evaluate "VALUE").asList).length)
  | .listIsEmpty => do return .boolean (← (← p.evaluate "VALUE").asList).isEmpty

end Blockwork
