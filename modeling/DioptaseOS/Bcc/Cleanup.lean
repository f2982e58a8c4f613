import Mathlib

/-!
# TAC lowering of scopes with cleanup handlers

`block_to_TAC` in `TAC.c` lowers the items of a block in order and then, for each name of the
block's identifier map whose symbol is a local with a cleanup handler, appends `&var` into a
new temporary and a call of the handler. `stmt_to_TAC` lowers `return` to a plain `TACRETURN`
and `goto`, `break` and `continue` to plain jumps. The cleanup calls stand at the textual end
of the block, so a path that leaves the block through one of these never reaches them.

The statements are those whose lowering the cleanups depend on; a declaration is one without
an initializer, which `local_dclr_to_TAC` lowers to nothing. The identifier map of a block is
the list of its names in the order the hash map yields them, and `cleanup` is what the symbol
table gives for a name: the handler of a local that has one. `runTac` runs the TAC of a
function and records the calls it makes, with the variable whose address each argument holds.

## Main definitions

* `TacInstr`, `Stmt`, `BlockItem`
* `makeTemp`, `cleanupCalls`, `stmtToTac`, `blockToTac` — the lowering
* `runTac` — running the TAC of a function

## Main results

* `return_skips_cleanup` — `{ int x __attribute__((cleanup(f))); return; }` returns without
  calling `f`, while the same block without the `return` calls `f(&x)` at its end
-/

namespace DioptaseOS.Bcc

/-- The TAC instructions these statements lower to. -/
inductive TacInstr
  | ret
  | jump (label : String)
  | label (label : String)
  | getAddress (dst src : String)
  | call (callee : String) (args : List String)
  deriving DecidableEq, Repr

mutual

/-- The statements of `struct Statement` that leave or enter a scope. `brk` and `cont` carry
the label `label_loops` gave them; `expr` is a call statement `callee()`. -/
inductive Stmt
  | ret
  | expr (callee : String)
  | goto (label : String)
  | labeled (label : String) (s : Stmt)
  | compound (items : List BlockItem) (idents : List String)
  | brk (label : String)
  | cont (label : String)

/-- A block item: a statement, or the declaration of a local. -/
inductive BlockItem
  | stmt (s : Stmt)
  | dclr (name : String)

end

/-- `make_temp(func_name, type)`: `func_name.tmp.N` for the next `tac_temp_counter`. -/
def makeTemp (funcName : String) : StateM Nat String := do
  let id ← get
  set (id + 1)
  return funcName ++ ".tmp." ++ toString id

/-- The cleanup loop at the end of a scope, over the names of its identifier map. -/
def cleanupCalls (funcName : String) (cleanup : String → Option String) :
    List String → StateM Nat (List TacInstr)
  | [] => pure []
  | name :: names =>
    match cleanup name with
    | none => cleanupCalls funcName cleanup names
    | some handler => do
      let addr ← makeTemp funcName
      let rest ← cleanupCalls funcName cleanup names
      return .getAddress addr name :: .call handler [addr] :: rest

mutual

/-- `stmt_to_TAC(func_name, stmt)` for these statements. A compound statement is lowered by
`block_to_TAC`, written out here so that the recursion is structural (`blockToTac`). -/
def stmtToTac (funcName : String) (cleanup : String → Option String) :
    Stmt → StateM Nat (List TacInstr)
  | .ret => pure [.ret]
  | .expr callee => pure [.call callee []]
  | .goto label => pure [.jump label]
  | .labeled label s => do
    let body ← stmtToTac funcName cleanup s
    return .label label :: body
  | .compound items idents => do
    let body ← itemsToTac funcName cleanup items
    let calls ← cleanupCalls funcName cleanup idents
    return body ++ calls
  | .brk label => pure [.jump (label ++ ".break")]
  | .cont label => pure [.jump (label ++ ".continue")]

/-- The loop of `block_to_TAC` over the items. -/
def itemsToTac (funcName : String) (cleanup : String → Option String) :
    List BlockItem → StateM Nat (List TacInstr)
  | [] => pure []
  | .stmt s :: items => do
    let first ← stmtToTac funcName cleanup s
    let rest ← itemsToTac funcName cleanup items
    return first ++ rest
  | .dclr _ :: items => itemsToTac funcName cleanup items

end

/-- `block_to_TAC(func_name, block)`: the items, then the cleanups of the block's names. -/
def blockToTac (funcName : String) (cleanup : String → Option String)
    (items : List BlockItem) (idents : List String) : StateM Nat (List TacInstr) := do
  let body ← itemsToTac funcName cleanup items
  let calls ← cleanupCalls funcName cleanup idents
  return body ++ calls

theorem stmtToTac_compound (funcName : String) (cleanup : String → Option String)
    (items : List BlockItem) (idents : List String) :
    stmtToTac funcName cleanup (.compound items idents) =
      blockToTac funcName cleanup items idents := by
  rw [stmtToTac, blockToTac]

/-! ### Running the TAC of a function -/

/-- How a run ends. -/
inductive TacEnd
  | returned
  | fellOff
  | badJump (label : String)
  | outOfFuel
  deriving DecidableEq, Repr

/-- The index of the label `label` in the code. -/
def labelIndex (code : List TacInstr) (label : String) : Option Nat :=
  code.findIdx? (· = .label label)

/-- A run of the code from `pc`: `addrs` says which variable's address each temporary holds,
and `calls` are the calls made so far, each with the variables its arguments point to. -/
def runTac (code : List TacInstr) :
    Nat → Nat → (String → Option String) → List (String × List (Option String)) →
      TacEnd × List (String × List (Option String))
  | 0, _, _, calls => (.outOfFuel, calls)
  | fuel + 1, pc, addrs, calls =>
    match code[pc]? with
    | none => (.fellOff, calls)
    | some .ret => (.returned, calls)
    | some (.jump label) =>
      match labelIndex code label with
      | some target => runTac code fuel target addrs calls
      | none => (.badJump label, calls)
    | some (.label _) => runTac code fuel (pc + 1) addrs calls
    | some (.getAddress dst src) => runTac code fuel (pc + 1) (Function.update addrs dst (some src)) calls
    | some (.call callee args) => runTac code fuel (pc + 1) addrs (calls ++ [(callee, args.map addrs)])

/-- The body `{ int x __attribute__((cleanup(f))); return; }` of `main`: the `return` is
lowered before the cleanup call that ends the block, and the run returns without calling `f`.
Without the `return`, the run falls off the block's end through the call `f(&x)`. -/
theorem return_skips_cleanup :
    Id.run ((blockToTac "main" (fun n => if n = "x" then some "f" else none)
        [.dclr "x", .stmt .ret] ["x"]).run' 0) =
      [.ret, .getAddress "main.tmp.0" "x", .call "f" ["main.tmp.0"]] ∧
    runTac [.ret, .getAddress "main.tmp.0" "x", .call "f" ["main.tmp.0"]] 3 0 (fun _ => none) [] =
      (.returned, []) ∧
    runTac (Id.run ((blockToTac "main" (fun n => if n = "x" then some "f" else none)
        [.dclr "x"] ["x"]).run' 0)) 3 0 (fun _ => none) [] =
      (.fellOff, [("f", [some "x"])]) := by
  decide

end DioptaseOS.Bcc
