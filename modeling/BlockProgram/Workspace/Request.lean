import BlockProgram.Graph.Document
import BlockProgram.Workspace.Ender

/-!
# Requests of an editor

Everything that an editor may ask of a workspace, with arguments that can be any values, and
`Request.perform`, which says what is done and answered. An argument in the place of an id names
a block only if it is a text. Where ids are looked up among the blocks, a list or dictionary is
a fault, as it can be no key; where they are only compared, it is as good as any other value
that names nothing.
-/

namespace BlockProgram

/-- What an editor may ask of a workspace. -/
inductive Request where
  | addBlock (record : Value)
  | getBlock (id : Value)
  | hasBlock (id : Value)
  | moveBlock (id x y : Value)
  | updateBlock (id updates : Value)
  | deleteBlock (id : Value)
  | disconnectAll (id : Value)
  | setInput (id socket value : Value)
  | wouldCycle (source target : Value)
  | connectStack (above below : Value)
  | connectBranch (parent key child : Value)
  | connectInput (parent socket child : Value)
  | connectSocket (source socket target : Value)
  | connectEdge (record : Value)
  | successor (id : Value)
  | predecessor (id : Value)
  | branchHead (id key : Value)
  | inputSource (id socket : Value)
  | createVariable (name initial : Value)
  | deleteVariable (id : Value)
  | initialVars
  | ensureIfEnder (id : Value)
  | ensureRepeatEnder (id : Value)
  | findEnder (id : Value)
  | syncEnders
  | lastInStack (id : Value)
  | stackLength (id : Value)
  | save (library : Json.Library) (indent : Value)

namespace Request

open Workspace

/-- The id of a known block; any other argument is a fault. -/
def known (id : Value) : Edit String := fun ws =>
  match id with
  | .str name => if ws.has name then (.ok name, ws) else (.error (.unknownBlock id), ws)
  | _ => (if id.isKey then .error (.unknownBlock id) else .error .wrongType, ws)

/-- The text that an argument is, for a look-up among the blocks. -/
def lookedUp (id : Value) : Edit (Option String) :=
  Edit.lift ((Fault.needKey id).map fun _ => id.str?)

/-- An edge between two arguments: refused unless both are texts. -/
def between (a b : Value) (connect : String → String → Edit Bool) : Edit Value := do
  match ← lookedUp a, ← lookedUp b with
  | some a, some b => return .bool (← connect a b)
  | _, _ => return .bool false

/-- A branch key or socket of an edge: a text or nothing. -/
def slotName (field : String) (v : Value) : Edit (Option String) :=
  Edit.lift (Checked.under [.field field] (Record.optionalText v)).toExcept

/-- Connects two blocks with a branch key or socket, which is looked at only if an edge between
them may be drawn. -/
def withSlot (field : String) (slot : Value) (source target : String)
    (connect : Option String → Edit Bool) : Edit Bool := do
  if (← get).canConnect source target then
    let name ← slotName field slot
    connect name
  else return false

/-- Sets fields one after the other; those set before a fault stay set. -/
def assignAll (id : String) (updates : Dict) : Edit Unit :=
  updates.forM fun (name, value) =>
    Edit.update fun ws => ws.assign id name.plain value

/-- Whether updates are a dictionary of field names. The words for the workspace and the block
themselves are taken. -/
def areUpdates (updates : Value) : Except Fault Dict :=
  match updates with
  | .dict entries =>
    let named := entries.all fun (name, _) =>
      match name with
      | .str s => s != "self" && s != "block_id"
      | _ => false
    if named then .ok entries else .error .wrongType
  | _ => .error .wrongType

/-- A record in memory before it is checked as a block: inputs that count as false are none. -/
def blockRecord (record : Value) : Except Fault Block :=
  match record with
  | .dict fields =>
    let inputs := (Dict.named? fields "inputs").getD .null
    let inputs := if inputs.truthy then inputs else .dict []
    (Record.block .memory (.dict (Dict.setNamed fields "inputs" inputs))).toExcept
  | _ => .error .missingOperation

/-- The text of an argument for a name; one that counts as false is empty. -/
def nameText (v : Value) : Except Fault String :=
  match v with
  | .str s => .ok s
  | _ => if v.truthy then .error .missingOperation else .ok ""

/-- An optional id as an answer. -/
def idAnswer (id : Option String) : Value := Value.ofText? id

/-- An argument for the indentation of a document: nothing or a whole number. -/
def indentation (v : Value) : Except Fault (Option Int) :=
  match v with
  | .null => .ok none
  | _ =>
    match v.number? with
    | some (.int n) => .ok (some n)
    | _ => .error .wrongType

/-- The end of a stack as an answer, for a start that may be any key. -/
def lastAnswer (edges : List Edge) (id : Value) : Except Fault Value :=
  match id with
  | .str start => .ok (idAnswer (lastInStack? start edges))
  | _ =>
    if id.truthy then (Fault.needKey id).map fun _ => id else .ok .null

/-- The length of a stack as an answer, for a start that may be any key. -/
def lengthAnswer (edges : List Edge) (id : Value) : Except Fault Value :=
  match id with
  | .str start => .ok (.int (BlockProgram.stackLength start edges))
  | _ => if id.truthy then (Fault.needKey id).map fun _ => .int 1 else .ok (.int 0)

/-- Whether an edge between two arguments would close a cycle: texts are searched for along the
edges, other keys only compared. -/
def cycleAnswer (ws : Workspace) (source target : Value) : Except Fault Value := do
  Fault.needKey source
  Fault.needKey target
  match source, target with
  | .str a, .str b => return .bool (ws.wouldCycle a b)
  | _, _ => return .bool (target.sameKey source)

/-- A variable as an answer. -/
def variableAnswer : Option Variable → Value
  | some v => .list [.str v.id, .str v.name, v.initial]
  | none => .null

/-- What is done and answered. A block is answered by its id. -/
def perform : Request → Edit Value
  | .addBlock record => do
    let b ← Edit.lift (blockRecord record)
    Edit.update fun ws => ws.addBlock b
    return .str b.id
  | .getBlock id => do return .str (← known id)
  | .hasBlock id => do
    let name ← lookedUp id
    let ws ← get
    return .bool (name.any ws.has)
  | .moveBlock id x y => do
    let name ← known id
    modify fun ws => ws.moveBlock name x y
    return .null
  | .updateBlock id updates => do
    let updates ← Edit.lift (areUpdates updates)
    let name ← known id
    assignAll name updates
    return .str name
  | .deleteBlock id => do
    match ← lookedUp id with
    | some name => return .bool (← Edit.change fun ws => ws.deleteBlock name)
    | none => return .bool false
  | .disconnectAll id => do
    match id with
    | .str name => modify fun ws => ws.disconnectAll name
    | _ => return .null
    return .null
  | .setInput id socket value => do
    let name ← known id
    Workspace.setInput name socket value
    return .null
  | .wouldCycle source target => do
    let ws ← get
    Edit.lift (cycleAnswer ws source target)
  | .connectStack above below =>
    between above below fun a b => Edit.change fun ws => ws.connectStack a b
  | .connectBranch parent key child =>
    between parent child fun p c =>
      withSlot "branch" key p c fun key => Edit.change fun ws => ws.connectBranch p key c
  | .connectInput parent socket child =>
    between parent child fun p c =>
      withSlot "port" socket p c fun socket => Workspace.connectInput p socket c
  | .connectSocket source socket target =>
    between source target fun a b =>
      Workspace.connectSocket a (if socket.truthy then socket.plain else "") b
  | .connectEdge record => do
    let e ← Edit.lift (Record.edge record).toExcept
    return .bool (← Workspace.connectEdge e)
  | .successor id => do
    let ws ← get
    return idAnswer (id.str?.bind ws.successor?)
  | .predecessor id => do
    let ws ← get
    return idAnswer (id.str?.bind ws.predecessor?)
  | .branchHead id key => do
    let ws ← get
    match id, key with
    | .str id, .str key => return idAnswer (ws.branchHead? id key)
    | _, _ => return .null
  | .inputSource id socket => do
    let ws ← get
    match id, socket with
    | .str id, .str socket => return idAnswer (ws.inputSource? id (some socket))
    | .str id, .null => return idAnswer (ws.inputSource? id none)
    | _, _ => return .null
  | .createVariable name initial => do
    let name ← Edit.lift (nameText name)
    return variableAnswer (← Edit.change fun ws => ws.createVariable name initial)
  | .deleteVariable id => do
    match id with
    | .str name => modify fun ws => ws.deleteVariable name
    | _ => return .null
    return .null
  | .initialVars => do
    let ws ← get
    return .dict ws.initialVars
  | .ensureIfEnder id => do
    let name ← known id
    return .str (← Workspace.ensureIfEnder name)
  | .ensureRepeatEnder id => do
    let name ← known id
    return .str (← Workspace.ensureRepeatEnder name)
  | .findEnder id => do
    let ws ← get
    let ender ← Edit.lift (ws.findEnder id)
    return idAnswer (ender.map (·.id))
  | .syncEnders => do return .int (← Workspace.syncEnders)
  | .lastInStack id => do
    let ws ← get
    Edit.lift (lastAnswer ws.edges id)
  | .stackLength id => do
    let ws ← get
    Edit.lift (lengthAnswer ws.edges id)
  | .save library indent => do
    let indent ← Edit.lift (indentation indent)
    let ws ← get
    return .str (← Edit.lift (ws.snapshot.save library indent))

end Request

namespace Workspace

/-- The workspace made anew from its own document. The variables and the count of ids stay. -/
def reloaded (library : Json.Library) (ws : Workspace) : Except Fault Workspace := do
  let text ← ws.snapshot.save library none
  let g ← (ProgramGraph.load library text).toExcept
  let fresh ← ofGraph g
  return { fresh with palette := ws.palette, issued := ws.issued }

end Workspace

end BlockProgram
