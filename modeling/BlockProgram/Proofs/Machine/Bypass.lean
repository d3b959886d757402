import BlockProgram.Proofs.Machine.Structured
import BlockProgram.Proofs.Machine.World
import BlockProgram.Proofs.Program.Alike

/-!
# Going past enders

An ender does nothing when a run comes to it. One program goes past enders of another
(`Program.Bypasses`) if every link of it leads to where the same link of the other program leads,
or to a place that is reached from there through nothing but enders (`Program.Skips`), and if its
slots are those of the other program but for references to what is gone.

Such a program reads like the other one (`Program.Reads.bypass`): where a part of the one can be
read, so can what is left of it in the other, with the same ending and into the same world. A body of
nothing but enders may be gone altogether; its rounds leave the world as it is.
-/

namespace BlockProgram

/-! ## Enders at run time -/

/-- Whether the type of a node is that of an ender. -/
def Node.closes (n : Node) : Bool := n.type.str?.any isEnderType

theorem Node.exists_of_closes {n : Node} (h : n.closes = true) :
    ∃ type, n.type = .str type ∧ isEnderType type = true := by
  rw [closes] at h
  cases htype : n.type with
  | str type =>
    rw [htype] at h
    exact ⟨type, rfl, h⟩
  | _ =>
    rw [htype] at h
    cases h

/-- The statements that enders are. -/
theorem Statement.named?_ender {type : String} (h : isEnderType type = true) :
    named? type = some .ifEnder ∨ named? type = some .repeatEnder := by
  rw [named?]
  split
  · rename_i s hs
    have hname := List.find?_some hs
    obtain rfl := beq_iff_eq.1 hname
    revert h
    cases s <;> decide +kernel
  · rw [if_pos h]
    exact .inr rfl

/-- The type of a block that sets a variable. -/
theorem Statement.isStr_of_setVariable {v : Value} (h : ofType? v = .ok (some .setVariable)) :
    v.isStr setVariable.typeName = true := by
  cases v with
  | str type =>
    have hnamed : named? type = some .setVariable := Except.ok.inj h
    rw [named?] at hnamed
    split at hnamed
    · rename_i s hs
      cases hnamed
      have hname := List.find?_some hs
      exact beq_iff_eq.2 (beq_iff_eq.1 hname).symm
    · split at hnamed <;> cases hnamed
  | list | dict => cases h
  | _ => cases h

/-- No ender is a reporter. -/
theorem Reporter.named?_ender {type : String} (h : isEnderType type = true) : named? type = none := by
  rw [named?, List.find?_eq_none]
  rintro r - hname
  obtain rfl := beq_iff_eq.1 hname
  revert h
  cases r <;> decide +kernel

namespace Program

variable {p q : Program} {config : Config} {n n' : Node} {w w' : World} {e : Ending}
  {gone : String → Prop}

theorem doing_of_closes (h : n.closes = true) : p.doing config n w = .ok (.effect w) := by
  obtain ⟨type, htype, hender⟩ := Node.exists_of_closes h
  have hstatement : Statement.ofType? n.type = .ok (Statement.named? type) := by
    rw [htype]
    rfl
  rw [doing, hstatement]
  have hpassed (s : Statement) (hs : s = .ifEnder ∨ s = .repeatEnder) :
      p.doingOf config n w (some s) = .ok (.effect w) := by
    rcases hs with rfl | rfl
    all_goals
      rw [doingOf, effectOn_eq]
      · rfl
      all_goals rintro ⟨⟩
  rcases Statement.named?_ender hender with hnamed | hnamed <;> rw [hnamed]
  · exact hpassed _ (.inl rfl)
  · exact hpassed _ (.inr rfl)

theorem silent_of_closes {place : Option Node} (h : ∀ n, place = some n → n.closes = true) :
    Silent place := by
  intro n hn
  obtain ⟨type, htype, hender⟩ := Node.exists_of_closes (h n hn)
  rw [htype]
  exact congrArg Except.ok (Reporter.named?_ender hender)

/-! ## Places behind enders -/

variable (p) in
/-- A place, and one that is reached from it through nothing but enders. -/
inductive Skips : Option String → Option String → Prop
  | here {place : Option String} : Skips place place
  | past {id : String} {n : Node} {place : Option String} :
    p.node? id = some n → n.closes = true → Skips n.next place → Skips (some id) place

theorem skips_some {id : String} {place : Option String} (hn : p.node? id = some n)
    (h : p.Skips (some id) place) :
    place = some id ∨ (n.closes = true ∧ p.Skips n.next place) := by
  cases h with
  | here => exact .inl rfl
  | past hn' hcloses hskips =>
    obtain rfl := Option.some.inj (hn.symm.trans hn')
    exact .inr ⟨hcloses, hskips⟩

theorem skips_none {place : Option String} (h : p.Skips none place) : place = none := by
  cases h
  rfl

/-! ## Programs that go past enders of another -/

/-- What the node of an id is in a program that goes past enders of another: the links lead to where
they led or further, and the slots are the same but for what is gone. Nothing counts as the empty
text there, except where a variable is set. -/
structure Bypassed (p : Program) (gone : String → Prop) (n n' : Node) : Prop where
  type : n'.type = n.type ∨ (n.closes = true ∧ n'.closes = true)
  next : p.Skips n.next n'.next
  branch : ∀ key, p.Skips (n.branch? key) (n'.branch? key)
  body : p.Skips (loopBody n) (loopBody n')
  slot : ∀ socket, SameSlot gone (n.input socket) (n'.input socket)
  assigned : n.type.isStr Statement.setVariable.typeName = true → n'.input "value" = .str "" →
    n.input "value" = .str ""

/-- The second program goes past enders of the first one. -/
structure Bypasses (p : Program) (gone : String → Prop) (q : Program) : Prop where
  entry : p.Skips p.entry q.entry
  node : ∀ id n n', p.node? id = some n → q.node? id = some n' → p.Bypassed gone n n'
  reporters : SameReporters gone p.nodes q.nodes
  closed : q.Closed

/-! ## What a node contributes -/

section Doing

variable (hall : SameReporters gone p.nodes q.nodes)
include hall

theorem textIn_eq (h : ∀ socket, SameSlot gone (n.input socket) (n'.input socket)) (w : World)
    (socket : String) : p.textIn n w socket = q.textIn n' w socket :=
  (readAlike_evaluate hall (h socket) w.vars).bind_eq Value.toText_unblank

theorem numberIn_eq (h : ∀ socket, SameSlot gone (n.input socket) (n'.input socket)) (w : World)
    (socket : String) : p.numberIn n w socket = q.numberIn n' w socket :=
  (readAlike_evaluate hall (h socket) w.vars).map_eq Value.toNumber_unblank

/-- The value that a variable is set to. -/
theorem evaluate_assigned (hslot : SameSlot gone (n.input "value") (n'.input "value"))
    (h : n'.input "value" = .str "" → n.input "value" = .str "") (vars : Dict) :
    p.evaluate vars (n.input "value") = q.evaluate vars (n'.input "value") := by
  rcases hslot with hsame | ⟨id, hid, hgone, hblank⟩
  · rw [hsame]
    exact evaluate_eq hall vars _
  · rcases Value.unblank_eq_null.1 hblank with hnull | hempty
    · rw [hid, hnull, evaluate, evaluateIdle_silent (hall.absent id hgone), evaluate, evaluateIdle]
      rintro id ⟨⟩
    · rw [h hempty] at hid
      cases hid

theorem worldAfter_eq (h : p.Bypassed gone n n') (w : World) {s : Statement}
    (hs : s = .setVariable → n.type.isStr Statement.setVariable.typeName = true) :
    p.worldAfter n w s = q.worldAfter n' w s := by
  have htext := textIn_eq hall h.slot w
  have hnumber := numberIn_eq hall h.slot w
  cases s with
  | setVariable =>
    have hvalue := evaluate_assigned hall (h.slot "value") (h.assigned (hs rfl)) w.vars
    simp only [worldAfter, htext, hvalue]
  | _ => simp only [worldAfter, htext, hnumber]

theorem roundCount_eq (h : p.Bypassed gone n n') (w : World) :
    p.roundCount n w = q.roundCount n' w := by
  rw [roundCount, numberIn_eq hall h.slot, roundCount]

theorem duration_eq (h : p.Bypassed gone n n') (config : Config) (w : World) :
    p.duration config n w = q.duration config n' w := by
  rw [duration, numberIn_eq hall h.slot, duration]

/-- The truth value in a slot. -/
theorem isTrue_eq (h : p.Bypassed gone n n') (vars : Dict) (socket : String) :
    p.isTrue vars (n.input socket) = q.isTrue vars (n'.input socket) :=
  (readAlike_evaluate hall (h.slot socket) vars).map_eq Value.truthy_unblank

end Doing

/-- A part of a program, and what is left of it in one that goes past enders. -/
inductive PartLeft (p q : Program) : Part → Part → Prop
  | chain {first first' : Option String} : p.Skips first first' → q.Leads first' →
    PartLeft p q (.chain first) (.chain first')
  | rounds {body body' : Option String} {count : Nat} : p.Skips body body' → q.Leads body' →
    PartLeft p q (.rounds body count) (.rounds body' count)
  | loop {condition condition' : Value} {body body' : Option String} :
    (∀ vars, p.isTrue vars condition = q.isTrue vars condition') → p.Skips body body' →
    q.Leads body' → PartLeft p q (.loop condition body) (.loop condition' body')

/-- What a node contributes, and what it contributes in a program that goes past enders. -/
inductive DoingLeft (p q : Program) : Doing → Doing → Prop
  | stop : DoingLeft p q .stop .stop
  | effect {w : World} : DoingLeft p q (.effect w) (.effect w)
  | construct {part part' : Part} : PartLeft p q part part' →
    DoingLeft p q (.construct part) (.construct part')

theorem doingOf_left (h : p.Bypasses gone q) {id : String} (hn : p.node? id = some n)
    (hn' : q.node? id = some n') {s : Option Statement} {d : Doing}
    (hs : s = some .setVariable → n.type.isStr Statement.setVariable.typeName = true)
    (hd : p.doingOf config n w s = .ok d) :
    ∃ d', q.doingOf config n' w s = .ok d' ∧ DoingLeft p q d d' := by
  have hnode := h.node id n n' hn hn'
  have hbody := leads_loopBody h.closed hn'
  rcases s with _ | s
  · cases hd
    exact ⟨_, rfl, .effect⟩
  have heffect (hd : (p.effectOn n s w).map Doing.effect = .ok d) :
      ∃ d', (q.effectOn n' s w).map Doing.effect = .ok d' ∧ DoingLeft p q d d' := by
    rw [effectOn_eq, worldAfter_eq h.reporters hnode w fun hset => hs (congrArg some hset)] at hd
    rw [effectOn_eq]
    obtain ⟨after, -, rfl⟩ := Fault.map_ok hd
    exact ⟨_, hd, .effect⟩
  cases s with
  | stop =>
    cases hd
    exact ⟨_, rfl, .stop⟩
  | wait =>
    obtain ⟨ticks, hticks, rfl⟩ := Fault.map_ok hd
    rw [duration_eq h.reporters hnode] at hticks
    exact ⟨_, by rw [doingOf, hticks]; rfl, .effect⟩
  | ifElse =>
    obtain ⟨condition, hcondition, rfl⟩ := Fault.map_ok hd
    have htrue := isTrue_eq h.reporters hnode w.vars "condition"
    rw [isTrue, hcondition] at htrue
    obtain ⟨condition', hcondition', hsame⟩ := Fault.map_ok htrue.symm
    refine ⟨_, by rw [doingOf, hcondition']; rfl, .construct ?_⟩
    rw [hsame]
    exact .chain (hnode.branch _) (h.closed.branch id n' hn' _)
  | repeatTimes =>
    obtain ⟨count, hcount, rfl⟩ := Fault.map_ok hd
    rw [roundCount_eq h.reporters hnode] at hcount
    exact ⟨_, by rw [doingOf, hcount]; rfl, .construct (.rounds hnode.body hbody)⟩
  | repeatUntil =>
    cases hd
    have htest (vars : Dict) := isTrue_eq h.reporters hnode vars "until"
    exact ⟨_, rfl, .construct (.loop htest hnode.body hbody)⟩
  | _ => exact heffect hd

/-- **What a node contributes is left of it.** -/
theorem doing_left (h : p.Bypasses gone q) {id : String} (hn : p.node? id = some n)
    (hn' : q.node? id = some n') {d : Doing} (hd : p.doing config n w = .ok d) :
    ∃ d', q.doing config n' w = .ok d' ∧ DoingLeft p q d d' := by
  rcases (h.node id n n' hn hn').type with htype | ⟨hcloses, hcloses'⟩
  · rw [doing] at hd
    rw [doing, htype]
    rcases hstatement : Statement.ofType? n.type with fault | s <;> rw [hstatement] at hd
    · cases hd
    · refine doingOf_left h hn hn' (fun hs => ?_) hd
      rw [hs] at hstatement
      exact Statement.isStr_of_setVariable hstatement
  · rw [doing_of_closes hcloses] at hd
    cases hd
    exact ⟨_, doing_of_closes hcloses', .effect⟩

/-! ## Readings -/

/-- **Coming to a node.** A run that comes to a node comes to it in the other program as well, which
finds the same to do there; or the node is an ender that the other program goes past. -/
theorem node_left (h : p.Bypasses gone q) {id : String} {first : Option String} {d : Doing}
    (hn : p.node? id = some n) (hd : p.doing config n w = .ok d) (hskips : p.Skips (some id) first)
    (hleads : q.Leads first) :
    (d = .effect w ∧ p.Skips n.next first) ∨
    (first = some id ∧ ∃ n' d', q.node? id = some n' ∧ q.doing config n' w = .ok d' ∧
      DoingLeft p q d d' ∧ p.Skips n.next n'.next ∧ q.Leads n'.next) := by
  rcases skips_some hn hskips with rfl | ⟨hcloses, hpast⟩
  · obtain ⟨n', hn'⟩ := hleads id rfl
    obtain ⟨d', hd', hdoing⟩ := doing_left h hn hn' hd
    exact .inr ⟨rfl, n', d', hn', hd', hdoing, (h.node id n n' hn hn').next, h.closed.next id n' hn'⟩
  · rw [doing_of_closes hcloses] at hd
    cases hd
    exact .inl ⟨rfl, hpast⟩

/-- **A program that goes past enders reads like the one with them.** -/
theorem Reads.bypass (h : p.Bypasses gone q) {part part' : Part}
    (hreads : p.Reads config part w e w') (hleft : PartLeft p q part part') :
    q.Reads config part' w e w' := by
  induction hreads generalizing part' with
  | nothing =>
    cases hleft with
    | chain hskips =>
      rw [skips_none hskips]
      exact .nothing
  | stop hn hd =>
    cases hleft with
    | chain hskips hleads =>
      rcases node_left h hn hd hskips hleads with ⟨⟨⟩, -⟩ | ⟨rfl, n', d', hn', hd', hdoing, -⟩
      cases hdoing
      exact .stop hn' hd'
  | effect hn hd _ ih =>
    cases hleft with
    | chain hskips hleads =>
      rcases node_left h hn hd hskips hleads with
        ⟨hsame, hpast⟩ | ⟨rfl, n', d', hn', hd', hdoing, hnext, hleads'⟩
      · -- the ender has left the world as it is, so going past it leaves nothing out
        cases hsame
        exact ih (.chain hpast hleads)
      · cases hdoing
        exact .effect hn' hd' (ih (.chain hnext hleads'))
  | construct hn hd _ _ ihinside ihrest =>
    cases hleft with
    | chain hskips hleads =>
      rcases node_left h hn hd hskips hleads with
        ⟨⟨⟩, -⟩ | ⟨rfl, n', d', hn', hd', hdoing, hnext, hleads'⟩
      cases hdoing with
      | construct hinside =>
        exact .construct hn' hd' (ihinside hinside) (ihrest (.chain hnext hleads'))
  | constructStopped hn hd _ ih =>
    cases hleft with
    | chain hskips hleads =>
      rcases node_left h hn hd hskips hleads with ⟨⟨⟩, -⟩ | ⟨rfl, n', d', hn', hd', hdoing, -⟩
      cases hdoing with
      | construct hinside => exact .constructStopped hn' hd' (ih hinside)
  | roundsEmpty =>
    cases hleft with
    | rounds hskips =>
      rw [skips_none hskips]
      exact .roundsEmpty
  | @roundsDone body w =>
    cases hleft with
    | @rounds _ body' =>
      rcases body' with _ | body'
      · exact .roundsEmpty
      · exact .roundsDone
  | roundsNext _ _ ihbody ihrest =>
    cases hleft with
    | @rounds _ body' _ hskips hleads =>
      have hround := ihbody (.chain hskips hleads)
      have hrest := ihrest (.rounds hskips hleads)
      rcases body' with _ | body'
      · -- the body held nothing but enders, so this round has changed nothing
        cases hround
        cases hrest
        exact .roundsEmpty
      · exact .roundsNext hround hrest
  | roundsStopped _ ih =>
    cases hleft with
    | @rounds _ body' _ hskips hleads =>
      have hround := ih (.chain hskips hleads)
      rcases body' with _ | body'
      · cases hround
      · exact .roundsStopped hround
  | loopEmpty =>
    cases hleft with
    | loop _ hskips =>
      rw [skips_none hskips]
      exact .loopEmpty
  | loopDone htest =>
    cases hleft with
    | @loop _ _ _ body' hsame =>
      rcases body' with _ | body'
      · exact .loopEmpty
      · exact .loopDone ((hsame _).symm.trans htest)
  | loopNext htest _ _ ihbody ihrest =>
    cases hleft with
    | @loop _ _ _ body' hsame hskips hleads =>
      have hround := ihbody (.chain hskips hleads)
      have hrest := ihrest (.loop hsame hskips hleads)
      rcases body' with _ | body'
      · cases hround
        cases hrest
        exact .loopEmpty
      · exact .loopNext ((hsame _).symm.trans htest) hround hrest
  | loopStopped htest _ ih =>
    cases hleft with
    | @loop _ _ _ body' hsame hskips hleads =>
      have hround := ih (.chain hskips hleads)
      rcases body' with _ | body'
      · cases hround
      · exact .loopStopped ((hsame _).symm.trans htest) hround

/-- The same for a whole program. -/
theorem Bypasses.reads (h : p.Bypasses gone q) (hreads : p.Reads config (.chain p.entry) w e w') :
    q.Reads config (.chain q.entry) w e w' :=
  hreads.bypass h (.chain h.entry h.closed.entry)

end Program

end BlockProgram
