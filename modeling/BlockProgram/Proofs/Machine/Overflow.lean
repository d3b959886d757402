import BlockProgram.Proofs.Machine.Keeping
import BlockProgram.Proofs.Machine.Structured
import BlockProgram.Proofs.Machine.World
import BlockProgram.Proofs.Program.Evaluate

/-!
# The two ways in which a run fails

Slots of checked programs have values, and the numbers read from them are within range. But
coordinates and headings are whole numbers of any size, and a whole number beyond the range of
floats cannot take part in an operation with a float. `Program.Overflows` says for every statement
when that happens, and a step fails with a number out of range exactly at a node whose statement
overflows (`Program.outOfRangeIff_advance`).

The other way is that the text of a whole number is needed which has too many digits. No such number
is computed, so this takes one in a variable or in a node (`Program.Short`).
-/

namespace BlockProgram

/-- A result that is missing because a number is out of range exactly where a condition holds. All
else that can be in the way of it is a whole number that is too long for its text. -/
inductive OutOfRangeIff {α : Type} (short condition : Prop) : Except Fault α → Prop
  | ok {a : α} (h : ¬ condition) : OutOfRangeIff short condition (.ok a)
  | outOfRange (h : condition) : OutOfRangeIff short condition (.error .outOfRange)
  | tooLong (h : ¬ condition) (hlong : ¬ short) :
    OutOfRangeIff short condition (.error .tooManyDigits)

namespace OutOfRangeIff

variable {α β : Type} {short P Q : Prop} {result : Except Fault α} {f : α → Except Fault β}

/-- A result is out of range exactly in the case that was named. -/
theorem error_iff (h : OutOfRangeIff short P result) : result = .error .outOfRange ↔ P := by
  cases h with
  | ok h => exact ⟨nofun, fun hP => absurd hP h⟩
  | outOfRange h => exact ⟨fun _ => h, fun _ => rfl⟩
  | tooLong h => exact ⟨nofun, fun hP => absurd hP h⟩

/-- Any other fault is a text that is too long, and then not everything was short. -/
theorem eq_tooManyDigits (h : OutOfRangeIff short P result) {fault : Fault}
    (hfault : fault ≠ .outOfRange) (herror : result = .error fault) :
    fault = .tooManyDigits ∧ ¬ short := by
  cases h with
  | ok => cases herror
  | outOfRange =>
    cases herror
    exact absurd rfl hfault
  | tooLong _ hlong =>
    cases herror
    exact ⟨rfl, hlong⟩

/-- The case may be named in another way. -/
theorem congr (h : OutOfRangeIff short P result) (hPQ : P ↔ Q) : OutOfRangeIff short Q result := by
  cases h with
  | ok h => exact .ok fun hQ => h (hPQ.2 hQ)
  | outOfRange h => exact .outOfRange (hPQ.1 h)
  | tooLong h hlong => exact .tooLong (fun hQ => h (hPQ.2 hQ)) hlong

theorem inRange (option : Option α) :
    OutOfRangeIff True (option = none) (Fault.inRange option) := by
  rcases option with _ | a
  · exact .outOfRange rfl
  · exact .ok (by simp)

/-- What is made of a result is missing for the same reasons. -/
theorem map {g : α → β} (h : OutOfRangeIff short P result) :
    OutOfRangeIff short P (result.map g) := by
  cases h with
  | ok h => exact .ok h
  | outOfRange h => exact .outOfRange h
  | tooLong h hlong => exact .tooLong h hlong

/-- What follows a computation that has a result. -/
theorem next {a : α} (ha : result = .ok a) (hf : OutOfRangeIff short Q (f a)) :
    OutOfRangeIff short Q (result >>= f) := by
  rw [ha]
  exact hf

/-- What follows a computation that may be out of range. -/
theorem bind (h : OutOfRangeIff True P result) (hP : P → Q)
    (hf : ∀ a, result = .ok a → ¬ P → OutOfRangeIff short Q (f a)) :
    OutOfRangeIff short Q (result >>= f) := by
  cases h with
  | ok h => exact hf _ rfl h
  | outOfRange h => exact .outOfRange (hP h)
  | tooLong _ hlong => exact absurd trivial hlong

/-- What follows and cannot be out of range. -/
theorem andThen (h : OutOfRangeIff short P result)
    (hf : ∀ a, result = .ok a → ¬ P → OutOfRangeIff short P (f a)) :
    OutOfRangeIff short P (result >>= f) := by
  cases h with
  | ok h => exact hf _ rfl h
  | outOfRange h => exact .outOfRange h
  | tooLong h hlong => exact .tooLong h hlong

end OutOfRangeIff

namespace UnlessLong

variable {α β : Type} {short P : Prop} {R : α → Prop} {result : Except Fault α}
  {f : α → Except Fault β}

/-- A result that is there unless something is too long is never out of range. -/
theorem inRange (h : UnlessLong short R result) (hP : ¬ P) : OutOfRangeIff short P result := by
  cases h with
  | ok => exact .ok hP
  | error hlong => exact .tooLong hP hlong

/-- What follows a slot that is read. -/
theorem thenIn (h : UnlessLong short R result) (hP : P → ∃ a, result = .ok a)
    (hf : ∀ a, result = .ok a → OutOfRangeIff short P (f a)) :
    OutOfRangeIff short P (result >>= f) := by
  cases h with
  | ok => exact hf _ rfl
  | error hlong =>
    refine .tooLong (fun hover => ?_) hlong
    obtain ⟨a, ha⟩ := hP hover
    cases ha

end UnlessLong

/-! ## Sprites -/

namespace Number

variable {a b : Number} {onInt : Int → Int → Int} {onFloat : Float → Float → Float}

/-- An operation with a number within range overflows where a wide number meets a float. -/
theorem combine?_eq_none_iff {y : Float} (hb : b.toFloat? = some y) :
    combine? onInt onFloat a b = none ↔ a.Wide ∧ ∃ x, b = .float x := by
  cases b with
  | float x =>
    rw [combine?_float, Option.map_eq_none_iff]
    exact ⟨fun h => ⟨h, x, rfl⟩, And.left⟩
  | int n =>
    constructor
    · intro h
      cases a with
      | int m => cases h
      | float x =>
        have hx : (Number.float x).toFloat? = some x := rfl
        obtain ⟨c, hc⟩ := @exists_combine? _ _ onInt onFloat _ _ hx hb
        rw [h] at hc
        cases hc
    · rintro ⟨-, x, hx⟩
      cases hx

/-- A whole number that has become a float has become a finite one. -/
theorem isInf_toFloat? {x : Float} (h : a.toFloat? = some x)
    (ha : ∀ y, a = .float y → y.isInf = false) : x.isInf = false := by
  cases a with
  | float y =>
    cases h
    exact ha x rfl
  | int n =>
    change (if _ then none else some _) = some x at h
    split at h
    · cases h
    · rename_i hbits
      cases h
      refine Binary.isInf_of_isFinite (Binary.isFinite_ofMagnitude ?_)
      exact Nat.lt_of_le_of_ne (Binary.nearestBits_le _ _) hbits

end Number

namespace Sprite

variable {sprite : Sprite} {length degrees : Number}

/-- When moving a sprite overflows. -/
def MoveOverflows (sprite : Sprite) : Prop :=
  (∃ h, sprite.heading.number? = some h ∧ h.Wide) ∨ sprite.x.Wide ∨ sprite.y.Wide

/-- When turning a sprite by some degrees overflows. -/
def TurnOverflows (sprite : Sprite) (combine : Number → Number → Option Number) (degrees : Number) :
    Prop :=
  ∃ h, sprite.heading.number? = some h ∧ (combine h degrees).bind Number.toFloat? = none

theorem isInf_radians {x : Float} (h : x.isInf = false) : (Program.radians x).isInf = false :=
  Binary.isInf_mul h (by decide +kernel)

/-- A coordinate of a move is computed in floats. -/
theorem component_eq {direction x : Float} (h : length.toFloat? = some x) :
    Program.component direction length = .ok (.float (direction * x)) := by
  simp only [Program.component, Number.mul?]
  have hfloats : Number.floats? (.float direction) length = some (direction, x) := by
    rw [Number.floats?, h]
    rfl
  unfold Number.combine?
  split
  · contradiction
  · rw [hfloats]
    rfl

/-- **When a move overflows**: the heading or one of the coordinates is a whole number that no float is
near to. -/
theorem outOfRangeIff_moved {x : Float} (haimed : sprite.Aimed) (hlength : length.toFloat? = some x) :
    OutOfRangeIff True sprite.MoveOverflows (sprite.moved length) := by
  obtain ⟨h, hheading, hfinite⟩ := haimed
  have hneed : sprite.heading.needNumber = .ok h := by rw [Value.needNumber, hheading]
  simp only [moved]
  refine .next hneed ?_
  refine (OutOfRangeIff.inRange _).bind (fun hwide => .inl ⟨h, hheading, hwide⟩) ?_
  intro degrees hdegrees hnarrow
  have hfloat : h.toFloat? = some degrees := by
    rcases hf : h.toFloat? with _ | y <;> rw [hf] at hdegrees <;> cases hdegrees
    rfl
  rw [if_neg (by rw [isInf_radians (Number.isInf_toFloat? hfloat hfinite)]; decide)]
  refine .next (component_eq hlength) ?_
  refine (OutOfRangeIff.inRange _).bind (fun hnone => .inr (.inl ?_)) fun x' _ hx => ?_
  · exact ((Number.combine?_eq_none_iff rfl).1 hnone).1
  refine .next (component_eq hlength) ?_
  refine (OutOfRangeIff.inRange _).bind (fun hnone => .inr (.inr ?_)) fun y' _ hy => ?_
  · exact ((Number.combine?_eq_none_iff rfl).1 hnone).1
  refine .ok ?_
  -- both offsets are floats, so a wide coordinate would have failed
  rintro (⟨h', hh', hwide⟩ | hwide | hwide)
  · rw [hheading] at hh'
    cases hh'
    exact hnarrow hwide
  · exact hx ((Number.combine?_eq_none_iff rfl).2 ⟨hwide, _, rfl⟩)
  · exact hy ((Number.combine?_eq_none_iff rfl).2 ⟨hwide, _, rfl⟩)

/-- A heading is reduced to one turn as a float, so it overflows if it has none. -/
theorem outOfRangeIff_facing (heading : Number) :
    OutOfRangeIff True heading.Wide (sprite.facing heading) := by
  refine OutOfRangeIff.map ((OutOfRangeIff.inRange _).congr ?_)
  simp only [Number.mod?, Program.fullTurn]
  rw [Number.combine?_float, Option.map_eq_none_iff]
  rfl

/-- A turn overflows with the heading that it comes to. -/
theorem outOfRangeIff_turned {combine : Number → Number → Option Number} (haimed : sprite.Aimed) :
    OutOfRangeIff True (sprite.TurnOverflows combine degrees) (sprite.turned combine degrees) := by
  obtain ⟨h, hheading, -⟩ := haimed
  have hneed : sprite.heading.needNumber = .ok h := by rw [Value.needNumber, hheading]
  have hiff : sprite.TurnOverflows combine degrees ↔
      (combine h degrees).bind Number.toFloat? = none := by
    simp only [TurnOverflows]
    rw [hheading]
    simp
  simp only [turned]
  refine .next hneed ?_
  -- either the sum is out of range or its remainder by a full turn
  rcases hcombined : combine h degrees with _ | turned
  · exact .outOfRange (hiff.2 (by rw [hcombined]; rfl))
  · refine .next rfl ((outOfRangeIff_facing turned).congr ?_)
    rw [hiff, hcombined]
    rfl

end Sprite

namespace Program

variable {p : Program} {config : Config} {n : Node} {w : World}

/-! ## Statements -/

variable (p config n w) in
/-- **When a statement overflows.** A move turns the heading and both coordinates into floats, a
shift its coordinate where the distance is a float, a turn the new heading, and a wait the ticks of
a second. A slot that is read for it has to have a value. All other statements are never out of
range. -/
def Overflows : Statement → Prop
  | .move => (∃ length, p.numberIn n w "steps" = .ok length) ∧ w.sprite.MoveOverflows
  | .changeXBy => w.sprite.x.Wide ∧ ∃ dx, p.numberIn n w "dx" = .ok (.float dx)
  | .changeYBy => w.sprite.y.Wide ∧ ∃ dy, p.numberIn n w "dy" = .ok (.float dy)
  | .turnClockwise => ∃ degrees, p.numberIn n w "degrees" = .ok degrees ∧
    w.sprite.TurnOverflows Number.add? degrees
  | .turnAnticlockwise => ∃ degrees, p.numberIn n w "degrees" = .ok degrees ∧
    w.sprite.TurnOverflows Number.sub? degrees
  | .wait => (∃ seconds, p.numberIn n w "seconds" = .ok seconds) ∧
    ∃ ticks, config.ticksPerSecond.number? = some ticks ∧ ticks.Wide
  | _ => False

/-- A number that was read becomes a float. -/
theorem exists_toFloat?_numberIn {socket : String} {a : Number}
    (h : p.numberIn n w socket = .ok a) : ∃ x, a.toFloat? = some x := by
  obtain ⟨v, -, rfl⟩ := Fault.map_ok h
  exact v.exists_toFloat?_toNumber

/-- A coordinate shifted by a number that was read. -/
theorem outOfRangeIff_shift {short : Prop} {coordinate d : Number} {y : Float}
    (hd : d.toFloat? = some y) {read : Except Fault Number} (hread : read = .ok d)
    (f : Number → World) :
    OutOfRangeIff short (coordinate.Wide ∧ ∃ x, read = .ok (.float x))
      (Fault.inRange (coordinate.add? d) >>= fun c => .ok (f c)) := by
  have hiff : coordinate.add? d = none ↔ coordinate.Wide ∧ ∃ x, read = .ok (.float x) := by
    rw [Number.add?, Number.combine?_eq_none_iff hd, hread]
    simp
  exact (OutOfRangeIff.inRange _).bind hiff.1 fun c _ hsome => .ok fun hwide => hsome (hiff.2 hwide)

/-- A sprite turned by a number that was read. -/
theorem outOfRangeIff_turn {short : Prop} (haimed : w.sprite.Aimed) {d : Number}
    {read : Except Fault Number} (hread : read = .ok d)
    (combine : Number → Number → Option Number) :
    OutOfRangeIff short (∃ degrees, read = .ok degrees ∧ w.sprite.TurnOverflows combine degrees)
      (w.sprite.turned combine d >>= fun sprite => .ok (w.showing sprite)) := by
  refine (Sprite.outOfRangeIff_turned haimed).bind (fun hover => ⟨d, hread, hover⟩) ?_
  intro sprite _ hnot
  refine .ok ?_
  rintro ⟨degrees, hdegrees, hover⟩
  rw [hread] at hdegrees
  cases hdegrees
  exact hnot hover

/-- Unwinding fails only where a condition does. -/
theorem unlessLong_unwind {short : Prop} {isTrue : Value → Except Fault Bool}
    (h : ∀ slot, UnlessLong short (fun _ => True) (isTrue slot)) (frames : List Frame) :
    UnlessLong short (fun _ => True) (unwind isTrue frames).1 := by
  rcases hu : unwind isTrue frames with ⟨fault | current, frames'⟩
  · obtain ⟨removed, kept, hw⟩ := unwinds_of_unwind hu
    obtain ⟨-, -, condition, body, resume, rest, -, htest⟩ := hw.failure
    have hcondition := h condition
    rw [htest] at hcondition
    cases hcondition with
    | error hlong => exact .error hlong
  · exact .ok fun _ => trivial

section

variable (hp : ∀ n ∈ p.nodes, n.Typed)
include hp

/-- Every slot holds a number, unless a whole number is too long for its text. -/
theorem unlessLong_numberIn (n : Node) (w : World) (socket : String) :
    UnlessLong (Short w.vars p.nodes) (fun _ => True) (p.numberIn n w socket) :=
  (unlessLong_evaluate hp w.vars (n.input socket)).map fun _ _ _ => trivial

/-- A socket has a text, unless its value is too long for one. -/
theorem unlessLong_textIn (hn : n ∈ p.nodes) (w : World) (socket : String) :
    UnlessLong (Short w.vars p.nodes) (fun _ => True) (p.textIn n w socket) := by
  refine (unlessLong_evaluate hp w.vars (n.input socket)).bind fun v hv => ?_
  exact v.unlessLong_toText.mono fun hs => hv hs ((hs.nodes n hn).input socket)

/-- **When an effect overflows**, statement by statement. The others fail for no other reason
than a text that is too long. -/
theorem outOfRangeIff_worldAfter (hn : n ∈ p.nodes) (haimed : w.sprite.Aimed) {s : Statement}
    (hs : s ≠ .wait) :
    OutOfRangeIff (Short w.vars p.nodes) (p.Overflows config n w s) (p.worldAfter n w s) := by
  cases s with
  | say | think => exact ((unlessLong_textIn hp hn w "text").inRange not_false).map
  | clear => exact .ok not_false
  | move =>
    refine (unlessLong_numberIn hp n w "steps").thenIn And.left fun length hlength => ?_
    obtain ⟨x, hx⟩ := exists_toFloat?_numberIn hlength
    refine (Sprite.outOfRangeIff_moved haimed hx).bind (fun hover => ⟨⟨length, hlength⟩, hover⟩) ?_
    exact fun _ _ hnot => .ok fun hover => hnot hover.2
  | goTo =>
    refine (unlessLong_numberIn hp n w "x").thenIn nofun fun x _ => ?_
    exact (unlessLong_numberIn hp n w "y").thenIn nofun fun y _ => .ok not_false
  | changeXBy =>
    refine (unlessLong_numberIn hp n w "dx").thenIn (fun ⟨_, _, hdx⟩ => ⟨_, hdx⟩) fun dx hdx => ?_
    obtain ⟨x, hx⟩ := exists_toFloat?_numberIn hdx
    exact outOfRangeIff_shift hx hdx _
  | changeYBy =>
    refine (unlessLong_numberIn hp n w "dy").thenIn (fun ⟨_, _, hdy⟩ => ⟨_, hdy⟩) fun dy hdy => ?_
    obtain ⟨y, hy⟩ := exists_toFloat?_numberIn hdy
    exact outOfRangeIff_shift hy hdy _
  | turnClockwise | turnAnticlockwise =>
    refine (unlessLong_numberIn hp n w "degrees").thenIn (fun ⟨_, hd, _⟩ => ⟨_, hd⟩) ?_
    exact fun degrees hdegrees => outOfRangeIff_turn haimed hdegrees _
  | pointIn =>
    refine (unlessLong_numberIn hp n w "degrees").thenIn nofun fun degrees hdegrees => ?_
    obtain ⟨x, hx⟩ := exists_toFloat?_numberIn hdegrees
    refine (Sprite.outOfRangeIff_facing degrees).bind (fun hwide => ?_) fun _ _ _ => .ok not_false
    rw [Number.Wide, hx] at hwide
    cases hwide
  | setVariable =>
    refine (unlessLong_textIn hp hn w "name").thenIn nofun fun name _ => ?_
    exact (unlessLong_evaluate hp w.vars _).thenIn nofun fun value _ => .ok not_false
  | changeVariable =>
    refine (unlessLong_textIn hp hn w "name").thenIn nofun fun name _ => ?_
    refine (unlessLong_numberIn hp n w "delta").thenIn nofun fun delta hdelta => ?_
    obtain ⟨y, hy⟩ := exists_toFloat?_numberIn hdelta
    obtain ⟨x, hx⟩ := ((Dict.named? w.vars name).getD (.int 0)).exists_toFloat?_toNumber
    obtain ⟨sum, hsum⟩ := Value.exists_ofResult (Number.exists_combine? hx hy)
    exact .next hsum (.ok not_false)
  | wait => exact absurd rfl hs
  | start | stop | ifElse | repeatTimes | repeatUntil | ifEnder | repeatEnder => exact .ok not_false

/-- The ticks of a wait overflow where a second has too many. -/
theorem outOfRangeIff_duration (hticks : ∃ ticks, config.ticksPerSecond.number? = some ticks) :
    OutOfRangeIff (Short w.vars p.nodes) (p.Overflows config n w .wait)
      (p.duration config n w) := by
  obtain ⟨ticks, hticks⟩ := hticks
  have hneed : config.ticksPerSecond.needNumber = .ok ticks := by rw [Value.needNumber, hticks]
  simp only [duration, waitTicks]
  refine (unlessLong_numberIn hp n w "seconds").thenIn And.left fun seconds hseconds => ?_
  obtain ⟨x, hx⟩ := exists_toFloat?_numberIn hseconds
  refine .next (a := x) (by rw [hx]; rfl) (.next hneed ?_)
  refine (OutOfRangeIff.inRange _).bind (fun hwide => ⟨⟨seconds, hseconds⟩, ticks, hticks, hwide⟩) ?_
  intro factor _ hnot
  refine .ok ?_
  rintro ⟨-, ticks', hticks', hwide⟩
  rw [hticks] at hticks'
  cases hticks'
  exact hnot hwide

/-- Of control only the duration of a wait can overflow. -/
theorem outOfRangeIff_planOf (hn : n ∈ p.nodes) (haimed : w.sprite.Aimed)
    (hticks : ∃ ticks, config.ticksPerSecond.number? = some ticks) (s : Statement) :
    OutOfRangeIff (Short w.vars p.nodes) (p.Overflows config n w s)
      (p.planOf config n w (some s)) := by
  have heffect (hs : s ≠ .wait) :
      OutOfRangeIff (Short w.vars p.nodes) (p.Overflows config n w s)
        ((p.effectOn n s w).map fun w => (w, Plan.goOn n.next [])) := by
    rw [effectOn_eq]
    exact (outOfRangeIff_worldAfter hp hn haimed hs).map
  cases s with
  | stop | repeatUntil => exact .ok not_false
  | wait => exact (outOfRangeIff_duration hp hticks).map
  | ifElse => exact ((unlessLong_evaluate hp w.vars (n.input "condition")).inRange not_false).map
  | repeatTimes => exact ((unlessLong_numberIn hp n w "times").inRange not_false).map
  | _ => exact heffect (by decide)

/-! ## Steps -/

/-- Arriving fails only where a condition further out does. -/
theorem unlessLong_arrive (next : Option String) (s : State) :
    UnlessLong (Short s.vars p.nodes) (fun _ => True) (p.arrive next s) := by
  rcases next with _ | id
  · have hfound := unlessLong_unwind (unlessLong_isTrue hp s.vars) s.frames
    simp only [arrive]
    split <;> rename_i hu <;> rw [hu] at hfound
    · exact .ok fun _ => trivial
    · cases hfound with
      | error hlong => exact .error hlong
  · exact .ok fun _ => trivial

theorem unlessLong_follow (n : Node) (plan : Plan) (s : State) :
    UnlessLong (Short s.vars p.nodes) (fun _ => True) (p.follow n plan s) := by
  cases plan with
  | stop | rest ticks => exact .ok fun _ => trivial
  | goOn next entered => exact unlessLong_arrive hp next { s with frames := entered ++ s.frames }

/-- What a node does to the world leaves no number behind that is too long for its text. -/
theorem short_plan {s : State} (hn : n ∈ p.nodes) {plan : Plan}
    (hplan : p.plan config n s.world = .ok (w, plan)) (hs : Short s.vars p.nodes) :
    Short w.vars p.nodes := by
  have heffect (st : Statement)
      (h : ((p.effectOn n st s.world).map fun w => (w, Plan.goOn n.next [])) = .ok (w, plan)) :
      Short w.vars p.nodes := by
    obtain ⟨w', hw, heq⟩ := Fault.map_ok h
    cases heq
    obtain ⟨log, hrun⟩ := p.effect_ok n (m := { state := s }) hw
    have hsane := keeps_effect (storing_writable hp hs.nodes) hn st { state := s }
      ⟨trivial, hs.vars⟩
    rw [hrun] at hsane
    exact ⟨hsane.vars, hs.nodes⟩
  obtain ⟨st, -, hplan⟩ := Fault.bind_ok hplan
  rcases st with _ | st
  · cases hplan
    exact hs
  cases hst : st with rw [hst] at hplan
  | stop | repeatUntil =>
    cases hplan
    exact hs
  | wait | ifElse | repeatTimes =>
    obtain ⟨_, -, heq⟩ := Fault.map_ok hplan
    cases heq
    exact hs
  | _ => exact heffect st (hst ▸ hplan)

/-- **Executing a node overflows exactly where its statement does**, as carrying out a plan
cannot. -/
theorem outOfRangeIff_executed {s : State} (hn : n ∈ p.nodes) (haimed : s.sprite.Aimed)
    (hticks : ∃ ticks, config.ticksPerSecond.number? = some ticks) :
    OutOfRangeIff (Short s.vars p.nodes)
      (∃ st, Statement.ofType? n.type = .ok (some st) ∧ p.Overflows config n s.world st)
      (p.executed config n s) := by
  obtain ⟨type, htype⟩ := hp n hn
  have hstatement : Statement.ofType? n.type = .ok (Statement.named? type) := by rw [htype]; rfl
  have hplan : OutOfRangeIff (Short s.vars p.nodes)
      (∃ st, Statement.ofType? n.type = .ok (some st) ∧ p.Overflows config n s.world st)
      (p.plan config n s.world) := by
    refine .next hstatement ?_
    rw [hstatement]
    rcases Statement.named? type with _ | st
    · exact .ok fun ⟨st, hst, _⟩ => nomatch hst
    · have haimed : s.world.sprite.Aimed := haimed
      exact (outOfRangeIff_planOf hp hn haimed hticks st).congr (by simp)
  refine hplan.andThen ?_
  rintro ⟨w, plan⟩ hp' hnot
  -- unwinding only tests conditions
  exact ((unlessLong_follow hp n plan (s.within w)).mono
    fun hs => short_plan hp hn hp' hs).inRange hnot

end

/-- A state from which a step overflows: the run is at a node whose statement does. -/
structure Overflowing (p : Program) (config : Config) (s : State) : Prop where
  live : s.halted = false
  moving : s.waiting = none
  counted : s.steps < config.maxSteps
  node : ∃ id n st, s.current = some id ∧ p.node? id = some n ∧
    Statement.ofType? n.type = .ok (some st) ∧ p.Overflows config n s.world st

/-- **A step is out of range exactly where it overflows**, and does not fail otherwise but for a whole
number that is too long for its text. -/
theorem outOfRangeIff_advance (hp : ∀ n ∈ p.nodes, n.Typed) {s : State} (haimed : s.sprite.Aimed)
    (hticks : ∃ ticks, config.ticksPerSecond.number? = some ticks) :
    OutOfRangeIff (Short s.vars p.nodes) (p.Overflowing config s) (p.advance config s) := by
  simp only [advance]
  by_cases hh : s.halted
  · rw [if_pos hh]
    refine .ok fun hover => ?_
    rw [hover.live] at hh
    cases hh
  rw [if_neg hh]
  have hlive : s.halted = false := by simpa using hh
  split
  · rename_i hidle
    refine .ok fun hover => ?_
    obtain ⟨id, -, -, hid, -⟩ := hover.node
    rw [hid, Option.isNone_some, Bool.and_false] at hidle
    cases hidle
  split
  · rename_i hlimit
    exact .ok fun hover => absurd hover.counted (by omega)
  rename_i hcounted
  refine OutOfRangeIff.map ?_
  show OutOfRangeIff _ _ (p.act config (counted s))
  simp only [act]
  rcases hw : (counted s).waiting with _ | waiting
  · have hmoving : s.waiting = none := hw
    rcases hn : p.currentNode? (counted s) with _ | n
    · refine .ok fun hover => ?_
      obtain ⟨id, n, -, hid, hnode, -⟩ := hover.node
      simp only [currentNode?] at hn
      rw [show (counted s).current = some id from hid, Option.bind_some, hnode] at hn
      cases hn
    · obtain ⟨id, hid, hnode⟩ := Option.bind_eq_some_iff.1 hn
      have hid : s.current = some id := hid
      have hmem := mem_of_findNode? hnode
      refine (outOfRangeIff_executed (s := counted s) hp hmem haimed hticks).congr ?_
      constructor
      · rintro ⟨st, hst, hover⟩
        exact ⟨hlive, hmoving, by omega, id, n, st, hid, hnode, hst, hover⟩
      · intro hover
        obtain ⟨id', n', st, hid', hnode', hst, hover⟩ := hover.node
        rw [hid] at hid'
        cases hid'
        rw [hnode] at hnode'
        cases hnode'
        exact ⟨st, hst, hover⟩
  -- a tick of a wait reads no slot, and unwinding only tests conditions
  · have hnot : ¬ p.Overflowing config s := by
      intro hover
      have hmoving := hover.moving
      rw [show s.waiting = some waiting from hw] at hmoving
      cases hmoving
    dsimp only
    simp only [ticked]
    split
    · exact .ok hnot
    · exact (unlessLong_arrive hp _ { counted s with waiting := none }).inRange hnot

end Program

end BlockProgram
