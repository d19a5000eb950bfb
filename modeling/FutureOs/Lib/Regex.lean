import Mathlib.Computability.Language

/-!
# Regular expressions as they are written

A fragment of the syntax that regular expression engines share: concatenations of
characters, escapes, character classes, any character and any text, each atom with or
without a star.  An expression has a text and a language; `same` says which characters of a
text a written character stands for, so that matching without regard to case is the same
definition.

* `accepts_iff`: a matcher that computes the language;
* `read_text`: a well-formed expression is read back from its text, so the text of an
  expression determines it;
* `Documented`: what an engine promises about the expressions of the fragment, and
  `reference_documented`: an engine that keeps the promise.
-/

namespace FutureOs
namespace Regex

open scoped Computability

/-- What stands for one character. -/
inductive Atom
  | plain (c : Char)
  | escaped (c : Char)
  | oneOf (cs : List Char)
  | noneOf (cs : List Char)
  | anyChar
deriving DecidableEq

/-- An atom once, an atom any number of times, or any text. -/
inductive Item
  | one (atom : Atom)
  | many (atom : Atom)
  | anyText
deriving DecidableEq

abbrev Expr : Type := List Item

/-! ## Texts -/

/-- Characters that do not stand for themselves. -/
def metas : List Char :=
  ['\\', '.', '+', '*', '?', '(', ')', '|', '[', ']', '{', '}', '^', '$']

/-- Characters that a backslash may stand before. -/
def escapable : List Char :=
  metas ++ ['#', '&', '-', '~']

/-- Characters that stand for themselves in a class. -/
def isMember (c : Char) : Bool :=
  c.isAlphanum || c = '/'

namespace Atom

def text : Atom → List Char
  | plain c => [c]
  | escaped c => ['\\', c]
  | oneOf cs => '[' :: (cs ++ [']'])
  | noneOf cs => '[' :: '^' :: (cs ++ [']'])
  | anyChar => ['(', '.', '|', '\n', ')']

def WellFormed : Atom → Prop
  | plain c => c ∉ metas
  | escaped c => c ∈ escapable
  | oneOf cs => ∀ c ∈ cs, isMember c = true
  | noneOf cs => ∀ c ∈ cs, isMember c = true
  | anyChar => True

end Atom

namespace Item

def text : Item → List Char
  | one atom => atom.text
  | many atom => atom.text ++ ['*']
  | anyText => ['(', '?', 's', ':', '.', '*', ')']

def WellFormed : Item → Prop
  | one atom => atom.WellFormed
  | many atom => atom.WellFormed
  | anyText => True

end Item

def text (e : Expr) : List Char :=
  e.flatMap Item.text

def WellFormed (e : Expr) : Prop :=
  ∀ item ∈ e, item.WellFormed

/-! ## Languages -/

section Language

variable (same : Char → Char → Bool)

def Atom.accepts : Atom → Char → Bool
  | plain c, d => same c d
  | escaped c, d => same c d
  | oneOf cs, d => cs.any (same · d)
  | noneOf cs, d => !cs.any (same · d)
  | anyChar, _ => true

/-- The texts of one character. -/
def Atom.language (atom : Atom) : Language Char :=
  {t | ∃ c, atom.accepts same c = true ∧ t = [c]}

def Item.language : Item → Language Char
  | one atom => atom.language same
  | many atom => (atom.language same)∗
  | anyText => Set.univ

def language (e : Expr) : Language Char :=
  (e.map (Item.language same)).prod

variable {same}

theorem mem_atom
    {atom : Atom}
    {t : List Char} :
    t ∈ atom.language same ↔ ∃ c, atom.accepts same c = true ∧ t = [c] :=
  Iff.rfl

theorem mem_atom_kstar
    {atom : Atom}
    {t : List Char} :
    t ∈ (atom.language same)∗ ↔ ∀ c ∈ t, atom.accepts same c = true := by
  rw [Language.mem_kstar]
  constructor
  · rintro ⟨parts, rfl, hparts⟩ c hc
    obtain ⟨part, hpart, hmem⟩ := List.mem_flatten.1 hc
    obtain ⟨d, hd, rfl⟩ := hparts part hpart
    rwa [List.mem_singleton.1 hmem]
  · intro h
    refine ⟨t.map fun c => [c], (List.flatMap_singleton' t).symm, ?_⟩
    intro part hpart
    obtain ⟨c, hc, rfl⟩ := List.mem_map.1 hpart
    exact ⟨c, h c hc, rfl⟩

/-- Characters that are accepted, and then what the rest of the matcher accepts. -/
def manyRest (p : Char → Bool) (rest : List Char → Bool) : List Char → Bool
  | [] => rest []
  | c :: t => rest (c :: t) || (p c && manyRest p rest t)

theorem manyRest_iff
    (p : Char → Bool)
    (rest : List Char → Bool)
    (t : List Char) :
    manyRest p rest t = true ↔
      ∃ front back, front ++ back = t ∧ (∀ c ∈ front, p c = true) ∧ rest back = true := by
  induction t with
  | nil =>
      constructor
      · intro h
        exact ⟨[], [], rfl, by simp, h⟩
      · rintro ⟨front, back, heq, -, hback⟩
        obtain ⟨-, rfl⟩ := List.append_eq_nil_iff.1 heq
        exact hback
  | cons c t ih =>
      rw [manyRest, Bool.or_eq_true, Bool.and_eq_true, ih]
      constructor
      · rintro (h | ⟨hc, front, back, rfl, hfront, hback⟩)
        · exact ⟨[], c :: t, rfl, by simp, h⟩
        · exact ⟨c :: front, back, rfl, by simpa [hc] using hfront, hback⟩
      · rintro ⟨front, back, heq, hfront, hback⟩
        cases front with
        | nil =>
            left
            rwa [← show back = c :: t from heq]
        | cons d front =>
            obtain ⟨rfl, htail⟩ := List.cons.inj heq
            exact .inr ⟨hfront d List.mem_cons_self, front, back, htail,
              fun c hc => hfront c (List.mem_cons_of_mem _ hc), hback⟩

variable (same) in
/-- The matcher. -/
def accepts : Expr → List Char → Bool
  | [], t => t.isEmpty
  | .one atom :: e, c :: t => atom.accepts same c && accepts e t
  | .one _ :: _, [] => false
  | .many atom :: e, t => manyRest (atom.accepts same) (accepts e) t
  | .anyText :: e, t => manyRest (fun _ => true) (accepts e) t

theorem language_cons (item : Item) (e : Expr) :
    language same (item :: e) = item.language same * language same e := by
  simp [language]

theorem accepts_iff (e : Expr) (t : List Char) :
    accepts same e t = true ↔ t ∈ language same e := by
  induction e generalizing t with
  | nil =>
      simp [accepts, language, Language.mem_one]
  | cons item e ih =>
      rw [language_cons, Language.mem_mul]
      cases item with
      | one atom =>
          constructor
          · intro h
            cases t with
            | nil => cases h
            | cons c t =>
                rw [accepts, Bool.and_eq_true] at h
                exact ⟨[c], ⟨c, h.1, rfl⟩, t, (ih t).1 h.2, rfl⟩
          · rintro ⟨_, ⟨c, hc, rfl⟩, back, hback, rfl⟩
            rw [List.singleton_append, accepts, hc, (ih back).2 hback]
            rfl
      | many atom =>
          simp only [accepts, manyRest_iff, Item.language, mem_atom_kstar, ih]
          constructor
          · rintro ⟨front, back, heq, hfront, hback⟩
            exact ⟨front, hfront, back, hback, heq⟩
          · rintro ⟨front, hfront, back, hback, heq⟩
            exact ⟨front, back, heq, hfront, hback⟩
      | anyText =>
          simp only [accepts, manyRest_iff, Item.language, ih]
          constructor
          · rintro ⟨front, back, heq, -, hback⟩
            exact ⟨front, trivial, back, hback, heq⟩
          · rintro ⟨front, -, back, hback, heq⟩
            exact ⟨front, back, heq, by simp, hback⟩

end Language

/-! ## Reading -/

/-- The members of a class, up to its bracket. -/
def readClass : List Char → Option (List Char × List Char)
  | [] => none
  | c :: t =>
      if c = ']' then
        some ([], t)
      else if isMember c then
        (readClass t).map fun (cs, rest) => (c :: cs, rest)
      else
        none

def readAtom : List Char → Option (Atom × List Char)
  | [] => none
  | '\\' :: c :: t => if c ∈ escapable then some (.escaped c, t) else none
  | '[' :: '^' :: t => (readClass t).map fun (cs, rest) => (.noneOf cs, rest)
  | '[' :: t => (readClass t).map fun (cs, rest) => (.oneOf cs, rest)
  | '(' :: '.' :: '|' :: '\n' :: ')' :: t => some (.anyChar, t)
  | c :: t => if c ∈ metas then none else some (.plain c, t)

/-- A star behind an atom repeats it. -/
def withStar : Atom × List Char → Item × List Char
  | (atom, '*' :: t) => (.many atom, t)
  | (atom, t) => (.one atom, t)

def readItem : List Char → Option (Item × List Char)
  | '(' :: '?' :: 's' :: ':' :: '.' :: '*' :: ')' :: t => some (.anyText, t)
  | t => (readAtom t).map withStar

/-- Every item takes a character, so `fuel` is the length of the text. -/
def readItems : Nat → List Char → Option Expr
  | _, [] => some []
  | 0, _ :: _ => none
  | fuel + 1, c :: t =>
      (readItem (c :: t)).bind fun (item, rest) =>
        (readItems fuel rest).map (item :: ·)

def read (t : List Char) : Option Expr :=
  readItems t.length t

theorem readClass_append
    (cs rest : List Char)
    (h : ∀ c ∈ cs, isMember c = true) :
    readClass (cs ++ ']' :: rest) = some (cs, rest) := by
  induction cs with
  | nil =>
      rfl
  | cons c cs ih =>
      have hc := h c List.mem_cons_self
      have hbracket : c ≠ ']' := by
        rintro rfl
        exact absurd hc (by decide)
      rw [List.cons_append, readClass, if_neg hbracket, if_pos hc,
        ih fun d hd => h d (List.mem_cons_of_mem _ hd)]
      rfl

theorem readAtom_text
    (atom : Atom)
    (rest : List Char)
    (h : atom.WellFormed) :
    readAtom (atom.text ++ rest) = some (atom, rest) := by
  cases atom with
  | plain c =>
      have hmeta : c ∉ metas := h
      have hslash : c ≠ '\\' := fun heq => hmeta (by subst heq; decide)
      have hopen : c ≠ '[' := fun heq => hmeta (by subst heq; decide)
      have hparen : c ≠ '(' := fun heq => hmeta (by subst heq; decide)
      simp [Atom.text, readAtom, hslash, hopen, hparen, hmeta]
  | escaped c =>
      have hc : c ∈ escapable := h
      simp [Atom.text, readAtom, hc]
  | oneOf cs =>
      have hclass := readClass_append cs rest h
      cases cs with
      | nil => rfl
      | cons c cs =>
          have hcaret : c ≠ '^' := by
            rintro rfl
            exact absurd (h '^' List.mem_cons_self) (by decide)
          simp only [List.cons_append] at hclass
          simp [Atom.text, readAtom, hcaret, hclass]
  | noneOf cs =>
      simp [Atom.text, readAtom, readClass_append cs rest h]
  | anyChar => rfl

/-- No item starts with a star, so a star belongs to the atom before it. -/
theorem text_head
    (e : Expr)
    (h : WellFormed e)
    (t : List Char) :
    text e ≠ '*' :: t := by
  intro heq
  cases e with
  | nil => cases heq
  | cons item e =>
      have hitem := h item List.mem_cons_self
      have hatom : ∀ atom : Atom, atom.WellFormed →
          ∀ more, atom.text ++ more ≠ '*' :: t := by
        intro atom hatom more heq
        cases atom with
        | plain c =>
            obtain ⟨rfl, -⟩ := List.cons.inj heq
            exact hatom (by decide)
        | _ => cases heq
      cases item with
      | one atom => exact hatom atom hitem _ heq
      | many atom =>
          refine hatom atom hitem ('*' :: text e) ?_
          simpa [text, Item.text] using heq
      | anyText => cases heq

theorem readItem_text
    (item : Item)
    (rest : List Char)
    (h : item.WellFormed)
    (hrest : ∀ t, rest ≠ '*' :: t) :
    readItem (item.text ++ rest) = some (item, rest) := by
  have hflag : ∀ atom : Atom, atom.WellFormed → ∀ more t,
      atom.text ++ more ≠ '(' :: '?' :: t := by
    intro atom hatom more t heq
    cases atom with
    | plain c =>
        obtain ⟨rfl, -⟩ := List.cons.inj heq
        exact hatom (by decide)
    | _ => cases heq
  have hread : ∀ atom : Atom, atom.WellFormed → ∀ more,
      readItem (atom.text ++ more) = some (withStar (atom, more)) := by
    intro atom hatom more
    unfold readItem
    split
    case h_1 heq => exact absurd heq (hflag atom hatom _ _)
    case h_2 => rw [readAtom_text atom more hatom, Option.map_some]
  cases item with
  | anyText => rfl
  | one atom =>
      rw [Item.text, hread atom h]
      unfold withStar
      split
      case h_1 heq => exact absurd (congrArg Prod.snd heq) (hrest _)
      case h_2 heq =>
        cases heq
        rfl
  | many atom =>
      rw [Item.text, List.append_assoc, hread atom h]
      rfl

theorem text_cons (item : Item) (e : Expr) :
    text (item :: e) = item.text ++ text e :=
  rfl

theorem readItems_text
    (e : Expr)
    (h : WellFormed e)
    (fuel : Nat)
    (hfuel : e.length ≤ fuel) :
    readItems fuel (text e) = some e := by
  induction e generalizing fuel with
  | nil =>
      cases fuel <;> rfl
  | cons item e ih =>
      have hrest : WellFormed e := fun item hmem => h item (List.mem_cons_of_mem _ hmem)
      have hitem := readItem_text item (text e) (h item List.mem_cons_self)
        (text_head e hrest)
      cases fuel with
      | zero => cases hfuel
      | succ fuel =>
          rw [text_cons]
          cases htext : item.text ++ text e with
          | nil =>
              rw [htext] at hitem
              cases hitem
          | cons c t =>
              rw [htext] at hitem
              rw [readItems, hitem, Option.bind_some]
              dsimp only
              rw [ih hrest fuel (Nat.le_of_succ_le_succ hfuel)]
              rfl

theorem length_le_text (e : Expr) : e.length ≤ (text e).length := by
  induction e with
  | nil =>
      rfl
  | cons item e ih =>
      have hitem : 1 ≤ item.text.length := by
        cases item with
        | one atom => cases atom <;> simp [Item.text, Atom.text]
        | many atom => simp [Item.text]
        | anyText => simp [Item.text]
      rw [text_cons, List.length_append, List.length_cons]
      omega

/-- The text of an expression says what the expression is. -/
theorem read_text
    (e : Expr)
    (h : WellFormed e) :
    read (text e) = some e :=
  readItems_text e h _ (length_le_text e)

/-! ## Texts without special characters -/

/-- The expression that is written like the text it matches. -/
def verbatim (cs : List Char) : Expr :=
  cs.map fun c => .one (.plain c)

theorem text_verbatim (cs : List Char) : text (verbatim cs) = cs := by
  induction cs with
  | nil =>
      rfl
  | cons c cs ih =>
      rw [verbatim, List.map_cons, text_cons]
      exact congrArg (c :: ·) ih

theorem verbatim_wellFormed
    {cs : List Char}
    (h : ∀ c ∈ cs, c ∉ metas) :
    WellFormed (verbatim cs) := by
  intro item hitem
  obtain ⟨c, hc, rfl⟩ := List.mem_map.1 hitem
  exact h c hc

theorem mem_language_verbatim
    {cs t : List Char} :
    t ∈ language (fun a b => a = b) (verbatim cs) ↔ t = cs := by
  rw [← accepts_iff]
  induction cs generalizing t with
  | nil =>
      exact List.isEmpty_iff
  | cons c cs ih =>
      cases t with
      | nil =>
          exact ⟨nofun, nofun⟩
      | cons d t =>
          rw [verbatim, List.map_cons, accepts, Bool.and_eq_true, List.cons.injEq]
          exact and_congr (decide_eq_true_iff.trans eq_comm) ih

/-! ## Engines -/

/--
An engine turns the text of an expression into a matcher, or fails.  What it documents of
the expressions of the fragment, written between two anchors: a matcher accepts the texts
of the language.
-/
def Documented
    (compile : List Char → Except String (List Char → Bool))
    (same : Char → Char → Bool)
    (opening closing : List Char) : Prop :=
  ∀ e, WellFormed e → ∀ matcher, compile (opening ++ text e ++ closing) = .ok matcher →
    ∀ t, matcher t = true ↔ t ∈ language same e

/-- What is between the two anchors. -/
def between (opening closing t : List Char) : List Char :=
  (t.drop opening.length).take (t.length - opening.length - closing.length)

theorem between_append (opening closing t : List Char) :
    between opening closing (opening ++ t ++ closing) = t := by
  simp [between, List.append_assoc]

/-- An engine for the fragment. -/
def reference
    (same : Char → Char → Bool)
    (opening closing t : List Char) : Except String (List Char → Bool) :=
  match read (between opening closing t) with
  | none => .error "regex parse error"
  | some e => .ok (accepts same e)

theorem reference_documented
    (same : Char → Char → Bool)
    (opening closing : List Char) :
    Documented (reference same opening closing) same opening closing := by
  intro e he matcher hmatcher t
  rw [reference, between_append, read_text e he] at hmatcher
  cases hmatcher
  exact accepts_iff e t

/-- The anchor at the end is not part of an expression. -/
theorem read_text_dollar
    (e : Expr)
    (h : WellFormed e) :
    read (text e ++ ['$']) = none := by
  have hitems : ∀ fuel, readItems fuel (text e ++ ['$']) = none := by
    induction e with
    | nil =>
        intro fuel
        cases fuel <;> rfl
    | cons item e ih =>
        have hrest : WellFormed e := fun item hmem => h item (List.mem_cons_of_mem _ hmem)
        have hstar : ∀ t, text e ++ ['$'] ≠ '*' :: t := by
          intro t heq
          cases htext : text e with
          | nil =>
              rw [htext] at heq
              cases heq
          | cons c s =>
              rw [htext] at heq
              obtain ⟨rfl, -⟩ := List.cons.inj heq
              exact text_head e hrest s htext
        have hitem := readItem_text item (text e ++ ['$']) (h item List.mem_cons_self) hstar
        rw [text_cons, List.append_assoc]
        intro fuel
        cases htext : item.text ++ (text e ++ ['$']) with
        | nil =>
            rw [htext] at hitem
            cases hitem
        | cons c t =>
            cases fuel with
            | zero => rfl
            | succ fuel =>
                rw [htext] at hitem
                rw [readItems, hitem, Option.bind_some]
                dsimp only
                rw [ih hrest fuel]
                rfl
  exact hitems _

/-- An engine for expressions behind `^`, with or without `$`. -/
def anchored (same : Char → Char → Bool) (source t : List Char) : Bool :=
  match read source.tail with
  | some e => t.inits.any (accepts same e)
  | none =>
      match read source.tail.dropLast with
      | some e => accepts same e t
      | none => false

theorem anchored_whole
    {same : Char → Char → Bool}
    (e : Expr)
    (h : WellFormed e)
    (t : List Char) :
    anchored same (['^'] ++ text e ++ ['$']) t = true ↔ t ∈ language same e := by
  have htail : (['^'] ++ text e ++ ['$']).tail = text e ++ ['$'] := rfl
  rw [anchored, htail, read_text_dollar e h, List.dropLast_concat, read_text e h]
  exact accepts_iff e t

theorem anchored_front
    {same : Char → Char → Bool}
    (e : Expr)
    (h : WellFormed e)
    (t : List Char) :
    anchored same (['^'] ++ text e) t = true ↔ ∃ s, s <+: t ∧ s ∈ language same e := by
  have htail : (['^'] ++ text e).tail = text e := rfl
  rw [anchored, htail, read_text e h]
  simp only [List.any_eq_true, List.mem_inits, accepts_iff]

end Regex
end FutureOs
