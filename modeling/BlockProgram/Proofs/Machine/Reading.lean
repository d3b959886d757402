import BlockProgram.Proofs.Machine.Advance

/-!
# The structured reading of a program

What a program means when it is read as text with nested constructs, without a machine:

* a **part** of a program is a chain of nodes or the rounds of a loop (`Part`);
* the reading of a part takes a world to a world and either runs out, so that what follows is
  read next, or has come to a `stop` (`Ending`);
* `Program.doing` is what one node contributes: a stop, an effect, or a construct with a part
  inside, chosen by the node's slots at that moment;
* `Program.Reads` puts these together. It has no step counter, no place and no frames.

A reading need not exist, as loops may go on forever and effects may fail, but there is at most
one (`Program.Reads.unique`).
-/

namespace BlockProgram

/-- A part of a program that can be read on its own. -/
inductive Part where
  /-- the nodes from one on, in the order of their `next` links -/
  | chain (first : Option String)
  /-- a number of rounds of a loop body -/
  | rounds (body : Option String) (count : Nat)
  /-- rounds of a loop body until a slot is true -/
  | loop (condition : Value) (body : Option String)

/-- How the reading of a part ends. -/
inductive Ending where
  | ranOut
  | stopped
  deriving DecidableEq, Repr

/-- The reason for which a program has ended whose reading ends so. -/
def Ending.reason : Ending → HaltReason
  | .ranOut => .endOfProgram
  | .stopped => .stopBlock

/-- What a node contributes to a reading. -/
inductive Doing where
  | stop
  /-- it leaves this world -/
  | effect (after : World)
  /-- it contains this part -/
  | construct (inside : Part)

namespace Program

variable (p : Program) (config : Config)

/-- The number of rounds of a `repeat_times`: what `times` is, rounded down, and none if that is
negative. -/
def roundCount (n : Node) (w : World) : Except Fault Nat := do
  let times ← p.numberIn n w "times"
  let whole ← Fault.inRange times.floor?
  return (max 0 whole).toNat

/-- What a node contributes to a reading, given the statement that it is. -/
def doingOf (n : Node) (w : World) : Option Statement → Except Fault Doing
  | some .stop => .ok .stop
  | some .wait => (p.duration config n w).map fun _ => .effect w
  | some .ifElse => (p.evaluate w.vars (n.input "condition")).map fun condition =>
    .construct (.chain (n.branch? (if condition.truthy then "true" else "false")))
  | some .repeatTimes => (p.roundCount n w).map fun count =>
    .construct (.rounds (loopBody n) count)
  | some .repeatUntil => .ok (.construct (.loop (n.input "until") (loopBody n)))
  | some s => (p.effectOn n s w).map .effect
  | none => .ok (.effect w)

/-- What a node contributes to a reading. -/
def doing (n : Node) (w : World) : Except Fault Doing := do
  p.doingOf config n w (← Statement.ofType? n.type)

/-- The reading of a part from a world to a world. -/
inductive Reads : Part → World → Ending → World → Prop
  /-- A chain without a first node runs out. -/
  | nothing {w : World} : Reads (.chain none) w .ranOut w
  /-- A stop ends the reading. -/
  | stop {id : String} {n : Node} {w : World} :
    p.node? id = some n → p.doing config n w = .ok .stop →
    Reads (.chain (some id)) w .stopped w
  /-- After an effect the reading goes on at the next node. -/
  | effect {id : String} {n : Node} {w w' w'' : World} {e : Ending} :
    p.node? id = some n → p.doing config n w = .ok (.effect w') →
    Reads (.chain n.next) w' e w'' →
    Reads (.chain (some id)) w e w''
  /-- After a construct has run out the reading goes on at the next node. -/
  | construct {id : String} {n : Node} {part : Part} {w w' w'' : World} {e : Ending} :
    p.node? id = some n → p.doing config n w = .ok (.construct part) →
    Reads part w .ranOut w' → Reads (.chain n.next) w' e w'' →
    Reads (.chain (some id)) w e w''
  /-- A stop inside a construct ends the reading around it. -/
  | constructStopped {id : String} {n : Node} {part : Part} {w w' : World} :
    p.node? id = some n → p.doing config n w = .ok (.construct part) →
    Reads part w .stopped w' →
    Reads (.chain (some id)) w .stopped w'
  /-- A loop without a body has no rounds. -/
  | roundsEmpty {count : Nat} {w : World} : Reads (.rounds none count) w .ranOut w
  /-- After the last round a loop has run out. -/
  | roundsDone {body : String} {w : World} : Reads (.rounds (some body) 0) w .ranOut w
  /-- A round that runs out leaves one round less. -/
  | roundsNext {body : String} {count : Nat} {w w' w'' : World} {e : Ending} :
    Reads (.chain (some body)) w .ranOut w' → Reads (.rounds (some body) count) w' e w'' →
    Reads (.rounds (some body) (count + 1)) w e w''
  /-- A stop inside a round ends the reading around it. -/
  | roundsStopped {body : String} {count : Nat} {w w' : World} :
    Reads (.chain (some body)) w .stopped w' →
    Reads (.rounds (some body) (count + 1)) w .stopped w'
  /-- A loop without a body is not even tested. -/
  | loopEmpty {condition : Value} {w : World} : Reads (.loop condition none) w .ranOut w
  /-- A loop whose condition is true has run out. -/
  | loopDone {condition : Value} {body : String} {w : World} :
    p.isTrue w.vars condition = .ok true →
    Reads (.loop condition (some body)) w .ranOut w
  /-- A round that runs out is followed by a new test in the world that it left. -/
  | loopNext {condition : Value} {body : String} {w w' w'' : World} {e : Ending} :
    p.isTrue w.vars condition = .ok false →
    Reads (.chain (some body)) w .ranOut w' → Reads (.loop condition (some body)) w' e w'' →
    Reads (.loop condition (some body)) w e w''
  /-- A stop inside a round ends the reading around it. -/
  | loopStopped {condition : Value} {body : String} {w w' : World} :
    p.isTrue w.vars condition = .ok false →
    Reads (.chain (some body)) w .stopped w' →
    Reads (.loop condition (some body)) w .stopped w'

variable {p config}

/-- **A part has at most one reading.** -/
theorem Reads.unique {part : Part} {w w₁ w₂ : World} {e₁ e₂ : Ending}
    (h₁ : p.Reads config part w e₁ w₁) (h₂ : p.Reads config part w e₂ w₂) :
    e₁ = e₂ ∧ w₁ = w₂ := by
  induction h₁ generalizing e₂ w₂ with
  | nothing =>
    cases h₂
    exact ⟨rfl, rfl⟩
  | stop hn hd =>
    -- the node decides which rule the other reading has used
    cases h₂ with
    | stop hn' hd' => exact ⟨rfl, rfl⟩
    | effect hn' hd' => grind
    | construct hn' hd' => grind
    | constructStopped hn' hd' => grind
  | effect hn hd _ ih =>
    cases h₂ with
    | effect hn' hd' hrest =>
      obtain rfl := Option.some.inj (hn.symm.trans hn')
      cases hd.symm.trans hd'
      exact ih hrest
    | stop hn' hd' => grind
    | construct hn' hd' => grind
    | constructStopped hn' hd' => grind
  | construct hn hd _ _ ihinside ihrest =>
    cases h₂ with
    | construct hn' hd' hinside hrest =>
      obtain rfl := Option.some.inj (hn.symm.trans hn')
      cases hd.symm.trans hd'
      obtain ⟨-, rfl⟩ := ihinside hinside
      exact ihrest hrest
    | constructStopped hn' hd' hinside =>
      obtain rfl := Option.some.inj (hn.symm.trans hn')
      cases hd.symm.trans hd'
      cases (ihinside hinside).1
    | stop hn' hd' => grind
    | effect hn' hd' => grind
  | constructStopped hn hd _ ih =>
    cases h₂ with
    | construct hn' hd' hinside =>
      obtain rfl := Option.some.inj (hn.symm.trans hn')
      cases hd.symm.trans hd'
      cases (ih hinside).1
    | constructStopped hn' hd' hinside =>
      obtain rfl := Option.some.inj (hn.symm.trans hn')
      cases hd.symm.trans hd'
      exact ih hinside
    | stop hn' hd' => grind
    | effect hn' hd' => grind
  | roundsEmpty =>
    cases h₂
    exact ⟨rfl, rfl⟩
  | roundsDone =>
    cases h₂
    exact ⟨rfl, rfl⟩
  | roundsNext _ _ ihbody ihrest =>
    cases h₂ with
    | roundsNext hbody hrest =>
      obtain ⟨-, rfl⟩ := ihbody hbody
      exact ihrest hrest
    | roundsStopped hbody => cases (ihbody hbody).1
  | roundsStopped _ ih =>
    cases h₂ with
    | roundsNext hbody => cases (ih hbody).1
    | roundsStopped hbody => exact ih hbody
  | loopEmpty =>
    cases h₂
    exact ⟨rfl, rfl⟩
  | loopDone htest =>
    cases h₂ with
    | loopDone => exact ⟨rfl, rfl⟩
    | loopNext htest' => cases htest.symm.trans htest'
    | loopStopped htest' => cases htest.symm.trans htest'
  | loopNext htest _ _ ihbody ihrest =>
    cases h₂ with
    | loopDone htest' => cases htest.symm.trans htest'
    | loopNext _ hbody hrest =>
      obtain ⟨-, rfl⟩ := ihbody hbody
      exact ihrest hrest
    | loopStopped _ hbody => cases (ihbody hbody).1
  | loopStopped htest _ ih =>
    cases h₂ with
    | loopDone htest' => cases htest.symm.trans htest'
    | loopNext _ hbody => cases (ih hbody).1
    | loopStopped _ hbody => exact ih hbody

end Program

end BlockProgram
