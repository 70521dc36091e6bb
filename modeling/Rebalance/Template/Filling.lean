import Rebalance.Template.Conversion

/-!
# Filling templates

A template is a text with directives, which begin with a percent sign and are filled from one value
or, where a list or a table is given, from the entries that their keys name. It is read one
character at a time, so of two faults the one that is met first counts.
-/

namespace Rebalance.Template

/-! ## Values to be written -/

/-- Where the values come from. -/
structure Supply where
  given : Value
  /-- The value to be written next, unless it was taken. -/
  next : Option Value

namespace Supply

/-- Whether values can be asked for by key, and none has to be. -/
def isKeyed (s : Supply) : Bool :=
  match s.given with
  | .list _ => true
  | .table _ => true
  | _ => false

/-- The next value, which is gone then. -/
def take (s : Supply) : Except Fault (Value × Supply) :=
  match s.next with
  | some v => .ok (v, { s with next := none })
  | none => .error .valueMissing

/-- Makes the value under a key the next one. -/
def select (s : Supply) (key : String) : Except Fault Supply :=
  match s.given with
  | .table entries =>
    match Roster.entry? entries key with
    | some v => .ok { s with next := some v }
    | none => .error (.unknownKey key)
  | _ => .error .notTable

/-- Takes a size, whose magnitude has a limit. -/
def takeSize (s : Supply) (limit : Nat) : Except Fault (Int × Supply) := do
  let (v, s) ← s.take
  let size ← integer v
  if -limit ≤ size && size < limit then return (size, s) else throw .outOfRange

end Supply

/-! ## Reading a template -/

/-- The number that the digits of a width stay below. -/
def widthBound : Nat := 0x8000000000000000

/-- The number that the digits of a precision stay below. -/
def precisionBound : Nat := 0x80000000

/-- How far a directive has been read. -/
inductive Phase where
  /-- No directive is open. -/
  | outside
  /-- Just behind the percent sign. -/
  | opened
  /-- Within a key, so many parentheses deep; what was read of it is held in reverse. -/
  | key (depth : Nat) (read : List Char)
  /-- Within the marks. -/
  | marks
  /-- Within the digits of the width. -/
  | width
  /-- Behind a width that was taken from the values. -/
  | measured
  /-- Just behind the point. -/
  | point
  /-- Within the digits of the precision. -/
  | precision
  /-- Behind a precision that was taken from the values. -/
  | refined
  /-- Behind the letter for a size of numbers, which says nothing. -/
  | sized
deriving DecidableEq

/-- A template that is being filled. -/
structure Filling where
  supply : Supply
  phase : Phase := .outside
  directive : Directive := {}
  /-- The number of characters read. -/
  place : Nat := 0
  /-- What was written, in reverse. -/
  written : List Char := []

namespace Filling

/-- Writes a text and leaves the directive. -/
def write (f : Filling) (text : List Char) : Filling :=
  { f with phase := .outside, directive := {}, written := text.reverse ++ f.written }

/-- Reads the last letter of a directive. -/
def readConversion (f : Filling) (c : Char) : Except Fault Filling := do
  let (v, supply) ← f.supply.take
  match Conversion.ofLetter? c with
  | some conversion =>
    let text ← f.directive.fit (← conversion.figure f.directive v)
    return { f with supply }.write text
  | none => throw (.unknownConversion c f.place)

/-- Reads what may stand behind the precision. -/
def readSize (f : Filling) (c : Char) : Except Fault Filling :=
  if c = 'h' || c = 'l' || c = 'L' then .ok { f with phase := .sized } else f.readConversion c

/-- Sets the precision. -/
def refine (f : Filling) (phase : Phase) (n : Nat) : Except Fault Filling :=
  if precisionBound ≤ n then .error .precisionTooLarge
  else .ok { f with phase, directive := { f.directive with precision := some n } }

/-- Reads what may stand behind the width. -/
def readPoint (f : Filling) (c : Char) : Except Fault Filling :=
  if c = '.' then f.refine .point 0 else f.readSize c

/-- Sets the width. -/
def measure (f : Filling) (n : Nat) : Except Fault Filling :=
  if widthBound ≤ n then .error .widthTooLarge
  else .ok { f with phase := .width, directive := { f.directive with width := n } }

/-- Takes the width from the values; a negative one fills up behind. -/
def takeWidth (f : Filling) : Except Fault Filling := do
  let (size, supply) ← f.supply.takeSize widthBound
  let left := f.directive.left || size < 0
  return { f with
    supply
    phase := .measured
    directive := { f.directive with left, width := size.natAbs } }

/-- Takes the precision from the values; a negative one counts as zero. -/
def takePrecision (f : Filling) : Except Fault Filling := do
  let (size, supply) ← f.supply.takeSize precisionBound
  { f with supply }.refine .refined size.toNat

/-- A directive with a mark, if the character is one. -/
def mark? (d : Directive) : Char → Option Directive
  | '-' => some { d with left := true }
  | '+' => some { d with plus := true }
  | ' ' => some { d with blank := true }
  | '#' => some { d with alternate := true }
  | '0' => some { d with zero := true }
  | _ => none

/-- The value of a decimal digit. -/
def digit (c : Char) : Nat := c.toNat - '0'.toNat

/-- Reads a mark, or what may stand behind the marks. -/
def readMark (f : Filling) (c : Char) : Except Fault Filling :=
  match mark? f.directive c with
  | some directive => .ok { f with phase := .marks, directive }
  | none =>
    if c = '*' then f.takeWidth
    else if c.isDigit then f.measure (digit c)
    else f.readPoint c

/-- Reads a character of a key. -/
def readKey (f : Filling) (depth : Nat) (read : List Char) (c : Char) : Except Fault Filling :=
  if c = '(' then .ok { f with phase := .key (depth + 1) (c :: read) }
  else if c = ')' then
    match depth with
    | 0 => do
      let supply ← f.supply.select (String.ofList read.reverse)
      return { f with supply, phase := .marks }
    | depth + 1 => .ok { f with phase := .key depth (c :: read) }
  else .ok { f with phase := .key depth (c :: read) }

/-- Reads the character behind a percent sign. -/
def readOpened (f : Filling) (c : Char) : Except Fault Filling :=
  if c = '%' then .ok (f.write [c])
  else if c = '(' then
    if f.supply.isKeyed then .ok { f with phase := .key 0 [] } else .error .notTable
  else f.readMark c

/-- Reads a character according to the phase. -/
def readIn (f : Filling) (c : Char) : Phase → Except Fault Filling
  | .outside => .ok (if c = '%' then { f with phase := .opened } else f.write [c])
  | .opened => f.readOpened c
  | .key depth read => f.readKey depth read c
  | .marks => f.readMark c
  | .width =>
    if c.isDigit then f.measure (10 * f.directive.width + digit c) else f.readPoint c
  | .measured => f.readPoint c
  | .point =>
    if c = '*' then f.takePrecision
    else if c.isDigit then f.refine .precision (digit c)
    else f.readSize c
  | .precision =>
    if c.isDigit then f.refine .precision (10 * f.directive.precision.getD 0 + digit c)
    else f.readSize c
  | .refined => f.readSize c
  | .sized => f.readConversion c

/-- Reads the next character. -/
def read (f : Filling) (c : Char) : Except Fault Filling := do
  let f ← f.readIn c f.phase
  return { f with place := f.place + 1 }

/-- Outside of directives all but the percent sign is written as it is. -/
theorem read_of_ne {f : Filling} {c : Char} (hf : f.phase = .outside) (hc : c ≠ '%') :
    f.read c = .ok { f.write [c] with place := f.place + 1 } := by
  rw [read, hf]
  simp only [readIn, if_neg hc]
  rfl

/-- A text without a percent sign is written as it is. -/
theorem foldlM_read_of_not_mem {f : Filling} {cs : List Char} (hf : f.phase = .outside)
    (hcs : '%' ∉ cs) :
    ∃ g, cs.foldlM read f = .ok g ∧ g.phase = .outside ∧ g.supply = f.supply ∧
      g.written = cs.reverse ++ f.written := by
  induction cs generalizing f with
  | nil => exact ⟨f, rfl, hf, rfl, rfl⟩
  | cons c rest ih =>
    rw [List.mem_cons, not_or] at hcs
    rw [List.foldlM_cons, read_of_ne hf (Ne.symm hcs.1)]
    obtain ⟨g, hg, hphase, hsupply, hwritten⟩ :=
      @ih { f.write [c] with place := f.place + 1 } rfl hcs.2
    exact ⟨g, hg, hphase, hsupply, by rw [hwritten]; simp [write]⟩

/-- The text, once the template has been read. -/
def text (f : Filling) : Except Fault String :=
  match f.phase with
  | .outside =>
    if f.supply.next.isSome && !f.supply.isKeyed then .error .valueUnused
    else .ok (String.ofList f.written.reverse)
  | .key _ _ => .error .openKey
  | _ => .error .openDirective

end Filling

/-- A template filled from a value. -/
def fill (template : String) (given : Value) : Except Fault String := do
  let f ← template.toList.foldlM Filling.read { supply := ⟨given, some given⟩ }
  f.text

/-- A text without a percent sign is itself, whatever list is given to fill it. -/
theorem fill_of_not_mem {template : String} (vs : List Value) (h : '%' ∉ template.toList) :
    fill template (.list vs) = .ok template := by
  obtain ⟨g, hg, hphase, hsupply, hwritten⟩ :=
    @Filling.foldlM_read_of_not_mem { supply := ⟨.list vs, some (.list vs)⟩ } _ rfl h
  rw [fill, hg]
  change g.text = _
  simp [Filling.text, hphase, hsupply, hwritten, Supply.isKeyed]

end Rebalance.Template
