import Mathlib.Data.List.Basic
import Mathlib.Data.List.TakeWhile
import Mathlib.Data.Int.Notation
import Mathlib.Tactic.Ring
import Mathlib.Data.String.Basic

/-!
# JSON texts

The texts of JSON as syntax trees: what a text says (`Syntax.data`) and how it is spelled
(`Syntax.text`), with every blank, escape and digit where it stands.

A scanner that only tells strings from the rest reads the same structure: the text of a tree
starts and ends outside strings, and as many braces close outside strings as open there
(`Syntax.outside_text`).
-/

namespace FutureOs
namespace JsonSyntax

/-! ## Strings -/

def IsBlank (c : Char) : Prop :=
  c = ' ' ∨ c = '\t' ∨ c = '\n' ∨ c = '\r'

instance : DecidablePred IsBlank :=
  fun c => inferInstanceAs (Decidable (c = ' ' ∨ c = '\t' ∨ c = '\n' ∨ c = '\r'))

abbrev Blank := List {c : Char // IsBlank c}

abbrev PlainChar := {c : Char // 0x20 ≤ c.toNat ∧ c ≠ '"' ∧ c ≠ '\\'}

inductive Escape
  | quote
  | backslash
  | slash
  | backspace
  | formFeed
  | newline
  | carriageReturn
  | tab

namespace Escape

/-- The letter after the backslash. -/
def letter : Escape → Char
  | quote => '"'
  | backslash => '\\'
  | slash => '/'
  | backspace => 'b'
  | formFeed => 'f'
  | newline => 'n'
  | carriageReturn => 'r'
  | tab => 't'

def char : Escape → Char
  | quote => '"'
  | backslash => '\\'
  | slash => '/'
  | backspace => Char.ofNat 8
  | formFeed => Char.ofNat 12
  | newline => '\n'
  | carriageReturn => '\r'
  | tab => '\t'

end Escape

def IsHexDigit (c : Char) : Prop :=
  ('0' ≤ c ∧ c ≤ '9') ∨ ('a' ≤ c ∧ c ≤ 'f') ∨ ('A' ≤ c ∧ c ≤ 'F')

instance : DecidablePred IsHexDigit :=
  fun c => inferInstanceAs
    (Decidable (('0' ≤ c ∧ c ≤ '9') ∨ ('a' ≤ c ∧ c ≤ 'f') ∨ ('A' ≤ c ∧ c ≤ 'F')))

abbrev HexDigit := {c : Char // IsHexDigit c}

def HexDigit.value (d : HexDigit) : Nat :=
  if d.1 ≤ '9' then d.1.toNat - '0'.toNat
  else if d.1 ≤ 'F' then d.1.toNat - 'A'.toNat + 10
  else d.1.toNat - 'a'.toNat + 10

/-- The four digits of a `\u` escape. -/
structure HexCode where
  first : HexDigit
  second : HexDigit
  third : HexDigit
  fourth : HexDigit

namespace HexCode

def value (code : HexCode) : Nat :=
  ((code.first.value * 16 + code.second.value) * 16 + code.third.value) * 16 +
    code.fourth.value

def text (code : HexCode) : List Char :=
  ['\\', 'u', code.first.1, code.second.1, code.third.1, code.fourth.1]

def IsHighSurrogate (code : HexCode) : Prop :=
  0xD800 ≤ code.value ∧ code.value < 0xDC00

def IsLowSurrogate (code : HexCode) : Prop :=
  0xDC00 ≤ code.value ∧ code.value < 0xE000

end HexCode

/-- One character of a string as it is spelled: an escape sequence is one item, and so is the
twelve character sequence of a surrogate pair. -/
inductive Item
  | plain (c : PlainChar)
  | escape (e : Escape)
  | unicode (code : {code : HexCode // ¬ code.IsHighSurrogate ∧ ¬ code.IsLowSurrogate})
  | surrogates (high : {code : HexCode // code.IsHighSurrogate})
      (low : {code : HexCode // code.IsLowSurrogate})

namespace Item

def text : Item → List Char
  | plain c => [c.1]
  | escape e => ['\\', e.letter]
  | unicode code => code.1.text
  | surrogates high low => high.1.text ++ low.1.text

def char : Item → Char
  | plain c => c.1
  | escape e => e.char
  | unicode code => Char.ofNat code.1.value
  | surrogates high low =>
      Char.ofNat (0x10000 + (high.1.value - 0xD800) * 0x400 + (low.1.value - 0xDC00))

end Item

def itemsText (items : List Item) : List Char :=
  items.flatMap Item.text

def stringText (items : List Item) : List Char :=
  '"' :: itemsText items ++ ['"']

def blankText (blank : Blank) : List Char :=
  blank.map Subtype.val

/-! ## Numbers -/

abbrev Digit := {c : Char // '0' ≤ c ∧ c ≤ '9'}

/-- The part before the fraction has no leading zero. -/
inductive Whole
  | zero
  | digits (lead : {c : Char // '1' ≤ c ∧ c ≤ '9'}) (rest : List Digit)

inductive Sign
  | plus
  | minus

structure Exponent where
  upper : Bool
  sign : Option Sign
  first : Digit
  rest : List Digit

structure Numeral where
  negative : Bool
  whole : Whole
  fraction : Option (Digit × List Digit)
  exponent : Option Exponent

def digitsText (digits : List Digit) : List Char :=
  digits.map Subtype.val

def Whole.text : Whole → List Char
  | zero => ['0']
  | digits lead rest => lead.1 :: digitsText rest

def Sign.text : Sign → List Char
  | plus => ['+']
  | minus => ['-']

def Exponent.text (exponent : Exponent) : List Char :=
  (if exponent.upper then 'E' else 'e') ::
    (exponent.sign.elim [] Sign.text ++ exponent.first.1 :: digitsText exponent.rest)

def Numeral.text (numeral : Numeral) : List Char :=
  (if numeral.negative then ['-'] else []) ++ numeral.whole.text ++
    numeral.fraction.elim [] (fun digits => '.' :: digits.1.1 :: digitsText digits.2) ++
    numeral.exponent.elim [] Exponent.text

/-! ## Values -/

inductive Literal
  | null
  | true
  | false

def Literal.text : Literal → List Char
  | null => ['n', 'u', 'l', 'l']
  | true => ['t', 'r', 'u', 'e']
  | false => ['f', 'a', 'l', 's', 'e']

/-- A key of an object, and the blanks around it and around its value. -/
structure Label where
  before : Blank
  key : List Item
  afterKey : Blank
  beforeValue : Blank
  afterValue : Blank

namespace Label

/-- The member as far as its value. -/
def text (label : Label) : List Char :=
  blankText label.before ++ stringText label.key ++ blankText label.afterKey ++ ':' ::
    blankText label.beforeValue

def keyChars (label : Label) : List Char :=
  label.key.map Item.char

end Label

/-- The blanks around an element of an array. -/
structure Gap where
  before : Blank
  after : Blank

inductive Syntax
  | literal (literal : Literal)
  | number (numeral : Numeral)
  | string (items : List Item)
  | array (inside : Blank) (elements : List (Gap × Syntax))
  | object (inside : Blank) (members : List (Label × Syntax))

/-- What a text says: numbers are kept as they are spelled, members in their order. -/
inductive Data
  | literal (literal : Literal)
  | number (text : List Char)
  | string (chars : List Char)
  | array (elements : List Data)
  | object (members : List (List Char × Data))

namespace Syntax

/-- The comma between two members, or between two elements. -/
def comma {α : Type} : List α → List Char
  | [] => []
  | _ :: _ => [',']

mutual

def text : Syntax → List Char
  | literal l => l.text
  | number numeral => numeral.text
  | string items => stringText items
  | array inside elements => '[' :: blankText inside ++ textElements elements ++ [']']
  | object inside members => '\x7b' :: blankText inside ++ textMembers members ++ ['\x7d']

def textElements : List (Gap × Syntax) → List Char
  | [] => []
  | (gap, value) :: rest =>
      blankText gap.before ++ value.text ++ blankText gap.after ++ comma rest ++
        textElements rest

def textMembers : List (Label × Syntax) → List Char
  | [] => []
  | (label, value) :: rest =>
      label.text ++ value.text ++ blankText label.afterValue ++ comma rest ++ textMembers rest

end

mutual

def data : Syntax → Data
  | literal l => .literal l
  | number numeral => .number numeral.text
  | string items => .string (items.map Item.char)
  | array _ elements => .array (dataElements elements)
  | object _ members => .object (dataMembers members)

def dataElements : List (Gap × Syntax) → List Data
  | [] => []
  | (_, value) :: rest => value.data :: dataElements rest

def dataMembers : List (Label × Syntax) → List (List Char × Data)
  | [] => []
  | (label, value) :: rest => (label.keyChars, value.data) :: dataMembers rest

end

end Syntax

namespace Data

mutual

/-- How deep arrays and objects are nested. -/
def depth : Data → Nat
  | literal _ => 0
  | number _ => 0
  | string _ => 0
  | array elements => depthElements elements + 1
  | object members => depthMembers members + 1

def depthElements : List Data → Nat
  | [] => 0
  | value :: rest => max value.depth (depthElements rest)

def depthMembers : List (List Char × Data) → Nat
  | [] => 0
  | (_, value) :: rest => max value.depth (depthMembers rest)

end

mutual

/-- Every number is one that `ok` admits. -/
def Numbers (ok : List Char → Prop) : Data → Prop
  | literal _ => True
  | number text => ok text
  | string _ => True
  | array elements => NumbersElements ok elements
  | object members => NumbersMembers ok members

def NumbersElements (ok : List Char → Prop) : List Data → Prop
  | [] => True
  | value :: rest => value.Numbers ok ∧ NumbersElements ok rest

def NumbersMembers (ok : List Char → Prop) : List (List Char × Data) → Prop
  | [] => True
  | (_, value) :: rest => value.Numbers ok ∧ NumbersMembers ok rest

end

end Data

/-- A whole text: a value between blanks. -/
structure Document where
  before : Blank
  value : Syntax
  after : Blank

def Document.text (document : Document) : List Char :=
  blankText document.before ++ document.value.text ++ blankText document.after

/-! ## Telling strings from the rest -/

/-- Where a scanner stands that knows strings and the backslash in them. -/
structure Mark where
  inString : Bool
  escaped : Bool
deriving DecidableEq

namespace Mark

def outside : Mark := ⟨false, false⟩

def inside : Mark := ⟨true, false⟩

def step (mark : Mark) (c : Char) : Mark :=
  if mark.escaped then
    { mark with escaped := false }
  else if c = '\\' ∧ mark.inString then
    { mark with escaped := true }
  else if c = '"' then
    { mark with inString := !mark.inString }
  else
    mark

def scan (mark : Mark) (text : List Char) : Mark :=
  text.foldl step mark

@[simp] theorem scan_nil (mark : Mark) : mark.scan [] = mark := rfl

@[simp] theorem scan_cons
    (mark : Mark)
    (c : Char)
    (text : List Char) :
    mark.scan (c :: text) = (mark.step c).scan text := rfl

@[simp] theorem scan_append
    (mark : Mark)
    (text text' : List Char) :
    mark.scan (text ++ text') = (mark.scan text).scan text' := by
  simp [scan]

end Mark

def braceValue (c : Char) : Int :=
  if c = '\x7b' then 1 else if c = '\x7d' then -1 else 0

/-- Open braces less closing ones. -/
def braces (text : List Char) : Int :=
  (text.map braceValue).sum

/-- The braces outside strings. -/
def bareBraces (mark : Mark) : List Char → Int
  | [] => 0
  | c :: rest => (if mark.inString then 0 else braceValue c) + bareBraces (mark.step c) rest

/-- The braces inside strings. -/
def quotedBraces (mark : Mark) : List Char → Int
  | [] => 0
  | c :: rest => (if mark.inString then braceValue c else 0) + quotedBraces (mark.step c) rest

theorem bareBraces_add_quotedBraces
    (mark : Mark)
    (text : List Char) :
    bareBraces mark text + quotedBraces mark text = braces text := by
  induction text generalizing mark with
  | nil => rfl
  | cons c rest ih =>
      have hrest := ih (mark.step c)
      simp only [bareBraces, quotedBraces, braces, List.map_cons, List.sum_cons] at hrest ⊢
      split <;> omega

theorem bareBraces_append
    (mark : Mark)
    (text text' : List Char) :
    bareBraces mark (text ++ text') =
      bareBraces mark text + bareBraces (mark.scan text) text' := by
  induction text generalizing mark with
  | nil => simp [bareBraces]
  | cons c rest ih =>
      simp only [List.cons_append, bareBraces, Mark.scan_cons, ih]
      omega

theorem braces_append (text text' : List Char) :
    braces (text ++ text') = braces text + braces text' := by
  simp [braces]

/-- Neither quotes nor braces. -/
def Bare (text : List Char) : Prop :=
  ∀ c ∈ text, c ≠ '"' ∧ c ≠ '\x7b' ∧ c ≠ '\x7d'

/-- A stretch that leaves the scanner outside strings, with `n` more braces open. -/
def Outside (text : List Char) (n : Int) : Prop :=
  Mark.outside.scan text = Mark.outside ∧ bareBraces Mark.outside text = n

namespace Outside

theorem nil : Outside [] 0 := ⟨rfl, rfl⟩

theorem append
    {text text' : List Char}
    {n m : Int}
    (h : Outside text n)
    (h' : Outside text' m) :
    Outside (text ++ text') (n + m) := by
  refine ⟨by rw [Mark.scan_append, h.1, h'.1], ?_⟩
  rw [bareBraces_append, h.1, h.2, h'.2]

theorem cons
    {c : Char}
    {text : List Char}
    {n : Int}
    (hc : c ≠ '"')
    (h : Outside text n) :
    Outside (c :: text) (braceValue c + n) := by
  have hstep : Mark.outside.step c = Mark.outside := by simp [Mark.step, Mark.outside, hc]
  refine ⟨by rw [Mark.scan_cons, hstep, h.1], ?_⟩
  simp only [bareBraces, hstep, h.2]
  rfl

theorem of_bare
    {text : List Char}
    (h : Bare text) :
    Outside text 0 := by
  induction text with
  | nil => exact nil
  | cons c rest ih =>
      obtain ⟨hquote, hopen, hclose⟩ := h c (by simp)
      have hrest := cons hquote (ih fun c hc => h c (by simp [hc]))
      simpa [braceValue, hopen, hclose] using hrest

end Outside

/-! ## The texts of trees -/

/-- A stretch of a string: the scanner stays in it. -/
def Inside (text : List Char) : Prop :=
  Mark.inside.scan text = Mark.inside ∧ bareBraces Mark.inside text = 0

namespace Inside

theorem nil : Inside [] := ⟨rfl, rfl⟩

theorem append
    {text text' : List Char}
    (h : Inside text)
    (h' : Inside text') :
    Inside (text ++ text') := by
  refine ⟨by rw [Mark.scan_append, h.1, h'.1], ?_⟩
  rw [bareBraces_append, h.1, h.2, h'.2]
  rfl

theorem plain
    {c : Char}
    (hslash : c ≠ '\\')
    (hquote : c ≠ '"') :
    Inside [c] := by
  have hstep : Mark.inside.step c = Mark.inside := by
    simp [Mark.step, Mark.inside, hslash, hquote]
  exact ⟨hstep, rfl⟩

theorem escape (c : Char) : Inside ['\\', c] := ⟨rfl, rfl⟩

theorem hexDigit (d : HexDigit) : Inside [d.1] := by
  obtain ⟨c, hc⟩ := d
  have hslash : ¬ IsHexDigit '\\' := by decide
  have hquote : ¬ IsHexDigit '"' := by decide
  exact plain (fun h => hslash (h ▸ hc)) (fun h => hquote (h ▸ hc))

theorem hexCode (code : HexCode) : Inside code.text :=
  (escape 'u').append ((hexDigit code.first).append ((hexDigit code.second).append
    ((hexDigit code.third).append (hexDigit code.fourth))))

theorem item (item : Item) : Inside item.text := by
  cases item with
  | plain c => exact plain c.2.2.2 c.2.2.1
  | escape e => exact escape e.letter
  | unicode code => exact hexCode code.1
  | surrogates high low => exact (hexCode high.1).append (hexCode low.1)

theorem items (items : List Item) : Inside (itemsText items) := by
  induction items with
  | nil => exact nil
  | cons first rest ih => exact (item first).append ih

end Inside

theorem digit_bare
    {c : Char}
    (h : '0' ≤ c ∧ c ≤ '9') :
    c ≠ '"' ∧ c ≠ '\x7b' ∧ c ≠ '\x7d' := by
  refine ⟨?_, ?_, ?_⟩ <;> rintro rfl <;> revert h <;> decide

theorem outside_stringText (items : List Item) : Outside (stringText items) 0 := by
  obtain ⟨hscan, hbraces⟩ := Inside.items items
  have hopen : Mark.outside.step '"' = Mark.inside := rfl
  constructor
  · simp only [stringText, List.cons_append, Mark.scan_cons, Mark.scan_append, hopen, hscan]
    rfl
  · simp only [stringText, List.cons_append, bareBraces, bareBraces_append, hopen, hscan,
      hbraces]
    rfl

theorem outside_blankText (blank : Blank) : Outside (blankText blank) 0 := by
  refine Outside.of_bare fun c hc => ?_
  obtain ⟨⟨c, hblank⟩, -, rfl⟩ := List.mem_map.mp hc
  rcases hblank with rfl | rfl | rfl | rfl <;> decide


namespace Bare

theorem append
    {text text' : List Char}
    (h : Bare text)
    (h' : Bare text') :
    Bare (text ++ text') := by
  intro c hc
  rcases List.mem_append.mp hc with hc | hc
  exacts [h c hc, h' c hc]

theorem digits (digits : List Digit) : Bare (digitsText digits) := by
  intro c hc
  obtain ⟨⟨c, hdigit⟩, -, rfl⟩ := List.mem_map.mp hc
  exact digit_bare hdigit

theorem lead
    {c : Char}
    {text : List Char}
    (hc : '0' ≤ c ∧ c ≤ '9')
    (h : Bare text) :
    Bare (c :: text) := by
  have hlead : Bare [c] := by simpa [Bare] using digit_bare hc
  exact hlead.append h

theorem whole (whole : Whole) : Bare whole.text := by
  cases whole with
  | zero => exact lead (by decide) (by simp [Bare])
  | digits first rest => exact lead ⟨le_trans (by decide) first.2.1, first.2.2⟩ (digits rest)

theorem exponent (exponent : Exponent) : Bare exponent.text := by
  have hsign : Bare (exponent.sign.elim [] Sign.text) := by
    cases exponent.sign with
    | none => simp [Bare]
    | some sign => cases sign <;> simp [Bare, Sign.text]
  have hmark : Bare [if exponent.upper then 'E' else 'e'] := by
    split <;> simp [Bare]
  exact hmark.append (hsign.append (lead exponent.first.2 (digits exponent.rest)))

theorem numeral (numeral : Numeral) : Bare numeral.text := by
  have hsign : Bare (if numeral.negative then ['-'] else []) := by
    split <;> simp [Bare]
  have hfraction :
      Bare (numeral.fraction.elim []
        (fun digits => '.' :: digits.1.1 :: digitsText digits.2)) := by
    cases numeral.fraction with
    | none => simp [Bare]
    | some fraction =>
        have hpoint : Bare ['.'] := by simp [Bare]
        exact hpoint.append (lead fraction.1.2 (digits fraction.2))
  have hexponent : Bare (numeral.exponent.elim [] Exponent.text) := by
    cases numeral.exponent with
    | none => simp [Bare]
    | some e => exact exponent e
  exact ((hsign.append (whole numeral.whole)).append hfraction).append hexponent

theorem literal (literal : Literal) : Bare literal.text := by
  cases literal <;> simp [Bare, Literal.text]

end Bare

namespace Syntax

theorem outside_comma
    {α : Type}
    (items : List α) :
    Outside (comma items) 0 := by
  cases items with
  | nil => exact Outside.nil
  | cons item rest => exact Outside.of_bare (by simp [Bare, comma])

theorem outside_label (label : Label) : Outside label.text 0 :=
  (((outside_blankText _).append (outside_stringText _)).append (outside_blankText _)).append
    ((outside_blankText label.beforeValue).cons (c := ':') (by decide))

mutual

/-- A value is read between strings, and closes the braces it opens. -/
theorem outside_text : ∀ value : Syntax, Outside value.text 0
  | literal l => Outside.of_bare (Bare.literal l)
  | number numeral => Outside.of_bare (Bare.numeral numeral)
  | string items => outside_stringText items
  | array inside elements => by
      have hclose : Outside [']'] 0 := Outside.of_bare (by simp [Bare])
      have h := ((outside_blankText inside).append
        (outside_textElements elements)).append hclose
      exact h.cons (c := '[') (by decide)
  | object inside members => by
      have hclose : Outside ['\x7d'] (-1) := ⟨rfl, rfl⟩
      have h := ((outside_blankText inside).append (outside_textMembers members)).append hclose
      exact h.cons (c := '\x7b') (by decide)

theorem outside_textElements :
    ∀ elements : List (Gap × Syntax), Outside (textElements elements) 0
  | [] => Outside.nil
  | (gap, value) :: rest =>
      ((((outside_blankText gap.before).append (outside_text value)).append
        (outside_blankText gap.after)).append (outside_comma rest)).append
        (outside_textElements rest)

theorem outside_textMembers :
    ∀ members : List (Label × Syntax), Outside (textMembers members) 0
  | [] => Outside.nil
  | (label, value) :: rest =>
      ((((outside_label label).append (outside_text value)).append
        (outside_blankText label.afterValue)).append (outside_comma rest)).append
        (outside_textMembers rest)

end

end Syntax

theorem Document.outside_text (document : Document) : Outside document.text 0 :=
  ((outside_blankText document.before).append (Syntax.outside_text document.value)).append
    (outside_blankText document.after)

end JsonSyntax
end FutureOs
