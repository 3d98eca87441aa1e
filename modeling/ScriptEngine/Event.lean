/-!
# Events

What an engine reports about its own work, in the order in which it happens.
-/

namespace ScriptEngine

inductive Event where
  | compiledUnit (name : String) (arity slots sites constants : Nat)
  | executingProgram (instrs : Nat)
  | linkedLookup (name : String)
  | linkedRegistration (name : String)
  | consumingFunction (id : Nat)
  | installedGuard (depth : Nat) (callee : String)
  | wentMegamorphic (depth : Nat) (callee : String)
  deriving DecidableEq, Repr

namespace Event

/-- The line of a log. -/
def text : Event → String
  | .compiledUnit name arity slots sites constants =>
      s!"mica::jit: compiled unit name={name} arity={arity} slots={slots} sites={sites} " ++
        s!"constants={constants}"
  | .executingProgram instrs => s!"mica::runtime: executing program instrs={instrs}"
  | .linkedLookup name => s!"mica::linker: linked global lookup name={name}"
  | .linkedRegistration name => s!"mica::linker: linked global registration name={name}"
  | .consumingFunction id => s!"mica::linker: consuming deferred function id=#{id}"
  | .installedGuard depth callee =>
      s!"mica::linker: installed call guard depth={depth} callee={callee}"
  | .wentMegamorphic depth callee =>
      s!"mica::linker: call site went megamorphic depth={depth} callee={callee}"

end Event

end ScriptEngine
