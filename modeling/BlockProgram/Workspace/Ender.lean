import BlockProgram.Graph.EnderType
import BlockProgram.Graph.Record
import BlockProgram.Value.Coerce
import BlockProgram.Workspace.Connect
import BlockProgram.Workspace.Palette

/-!
# Enders

Every `if_else` and every loop has one ender, which names it in its data. Enders that are missing
are added to the right of their owner and below it, and those whose owner is gone are deleted.
-/

namespace BlockProgram

/-- The key under which an ender names its owner. -/
def pairKey : String := "pair_with"

/-- The key under which a loop's ender has its variant. -/
def variantKey : String := "idx"

/-- Whether a block is an ender. -/
def Block.isEnder (b : Block) : Except Fault Bool := namesEnder b.type

/-- The owner that a block's data names. -/
def Block.owner? (b : Block) : Except Fault (Option Value) :=
  match b.data with
  | .dict entries => .ok (Dict.named? entries pairKey)
  | _ => .error .missingOperation

/-- The ways in which owners and enders go together. -/
inductive Pairing where
  | branches
  | loop
  deriving DecidableEq, Repr

namespace Workspace

/-- The first of the blocks that is an ender of an owner. -/
def findEnderIn (owner : Value) : List Block → Except Fault (Option Block)
  | [] => .ok none
  | b :: rest => do
    if ← b.isEnder then
      let named ← b.owner?
      if (named.getD .null).sameKey owner then return some b
    findEnderIn owner rest

/-- The ender of an owner. -/
def findEnder (ws : Workspace) (owner : Value) : Except Fault (Option Block) :=
  findEnderIn owner ws.blocks

/-- A fault unless there is a block with the id. -/
def needBlock (id : String) : Edit Block := fun ws =>
  match ws.block? id with
  | some b => (.ok b, ws)
  | none => (.error (.unknownBlock (.str id)), ws)

/-- The sum of two values that have to be numbers. -/
def sumOf (a b : Value) : Except Fault Value := do
  let m ← a.needNumber
  let n ← b.needNumber
  let sum ← Fault.inRange (m.add? n)
  return .ofNumber sum

/-- Where a new ender stands: to the right of its owner and below it, `height` being the height
of an owner that has none. -/
def enderPlace (owner : Block) (height gap : Int) : Except Fault (Value × Value) := do
  let x ← sumOf owner.x (.int 20)
  let bottom ← sumOf owner.y (if owner.h.truthy then owner.h else .int height)
  let y ← sumOf bottom (.int gap)
  return (x, y)

/-- A new ender block, whose place is checked like that of any record. -/
def makeEnder (id type : String) (place : Value × Value) (data : Dict) : Checked Block :=
  let make := fun x y =>
    ({ id, type := .str type, x, y, data := .dict data } : Block)
  Checked.part
    (Checked.part (.ok make)
      (Checked.under [.field "x"] (Record.coordinateValue .memory place.1)))
    (Checked.under [.field "y"] (Record.coordinateValue .memory place.2))

/-- Adds a new ender for an owner; its id counts as handed out whatever comes of it. -/
def addEnder (owner : Block) (type : String) (height gap : Int) (extra : Dict) : Edit String := do
  let id ← Edit.change fun ws => ws.freshId "ender_"
  let place ← Edit.lift (enderPlace owner height gap)
  let data : Dict := [(.str pairKey, .str owner.id), (.str "auto", .bool true)] ++ extra
  let ender ← Edit.lift (makeEnder id type place data).toExcept
  Edit.update fun ws => ws.addBlock ender
  return id

/-- The ender of an `if_else`, added if there is none. -/
def ensureIfEnder (ownerId : String) : Edit String := do
  let owner ← needBlock ownerId
  let ws ← get
  match ← Edit.lift (ws.findEnder (.str ownerId)) with
  | some ender => return ender.id
  | none => addEnder owner ifEnderType 120 80 []

/-- The number of blocks in the body of a loop. -/
def bodyLength (ws : Workspace) (id : String) : Nat :=
  match ws.branchHead? id defaultBranch with
  | some head => stackLength head ws.edges
  | none => 0

/-- The ender of a loop, added if there is none; its type and variant follow the body. -/
def ensureRepeatEnder (ownerId : String) : Edit String := do
  let owner ← needBlock ownerId
  let ws ← get
  let size := ws.bodyLength ownerId
  let wanted := repeatEnderType size
  let variant : Value := .int (clampVariant size)
  match ← Edit.lift (ws.findEnder (.str ownerId)) with
  | some ender =>
    if !ender.type.isStr wanted then
      set (ws.modifyBlock ender.id fun b =>
        { b with
          type := .str wanted
          data := .dict (Dict.setNamed (b.data.dict?.getD []) variantKey variant) })
    return ender.id
  | none => addEnder owner wanted 100 100 [(.str variantKey, variant)]

/-- How a block of some type is paired with an ender, if it is. -/
def pairing? (type : Value) : Except Fault (Option Pairing) :=
  if type.isStr "if_else" then .ok (some .branches)
  else if type.isStr "repeat_times" || type.isStr "repeat_until" then .ok (some .loop)
  else (Fault.needKey type).map fun _ => none

/-- Pairs one block with an ender if its type asks for one. -/
def ensureEnder (b : Block) : Edit Unit := do
  match ← Edit.lift (pairing? b.type) with
  | some .branches => let _ ← ensureIfEnder b.id
  | some .loop => let _ ← ensureRepeatEnder b.id
  | none => return

/-- Whether a block is an ender that names an owner which is not there. -/
def isOrphan (ws : Workspace) (b : Block) : Except Fault Bool := do
  if ← b.isEnder then
    match ← b.owner? with
    | some owner =>
      if owner.truthy then
        match owner with
        | .str id => return !ws.has id
        | other =>
          Fault.needKey other
          return true
      else return false
    | none => return false
  else return false

/-- Pairs every owner with an ender and deletes the enders whose owner is gone. The result is
the number of these. -/
def syncEnders : Edit Nat := do
  let ws ← get
  ws.blocks.forM ensureEnder
  let ws ← get
  let orphans ← Edit.lift (ws.blocks.filterM ws.isOrphan)
  set (orphans.foldl (fun ws b => (ws.deleteBlock b.id).2) ws)
  return orphans.length

end Workspace

end BlockProgram
