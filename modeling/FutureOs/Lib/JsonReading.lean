import FutureOs.Lib.JsonSyntax

/-!
# A JSON text has one reading

Two trees with one text say the same (`Document.data_unique`): they can differ in how the
blanks between two tokens are shared out, and in nothing else.  A value ends where a blank, a
comma or a closing bracket follows, and its first character tells what kind of value it is.
-/

namespace FutureOs
namespace JsonSyntax

/-! ## Where a token ends -/

/-- The text does not go on with a character of the kind. -/
def Stops (p : Char → Prop) (text : List Char) : Prop :=
  ∀ c ∈ text.head?, ¬ p c

theorem append_unique
    {p : Char → Prop}
    {a a' r r' : List Char}
    (ha : ∀ c ∈ a, p c)
    (ha' : ∀ c ∈ a', p c)
    (hr : Stops p r)
    (hr' : Stops p r')
    (h : a ++ r = a' ++ r') :
    a = a' ∧ r = r' := by
  induction a generalizing a' with
  | nil =>
      cases a' with
      | nil => exact ⟨rfl, h⟩
      | cons c rest =>
          have hc : c ∈ r.head? := by
            rw [show r = c :: rest ++ r' from h]
            rfl
          exact absurd (ha' c (by simp)) (hr c hc)
  | cons c rest ih =>
      cases a' with
      | nil =>
          have hc : c ∈ r'.head? := by
            rw [← show c :: rest ++ r = r' from h]
            rfl
          exact absurd (ha c (by simp)) (hr' c hc)
      | cons c' rest' =>
          obtain ⟨rfl, htail⟩ := List.cons.inj h
          obtain ⟨rfl, rfl⟩ := ih (fun d hd => ha d (by simp [hd]))
            (fun d hd => ha' d (by simp [hd])) htail
          exact ⟨rfl, rfl⟩

theorem blank_unique
    {b b' : Blank}
    {r r' : List Char}
    (hr : Stops IsBlank r)
    (hr' : Stops IsBlank r')
    (h : blankText b ++ r = blankText b' ++ r') :
    r = r' := by
  have hblank : ∀ b : Blank, ∀ c ∈ blankText b, IsBlank c := by
    intro b c hc
    obtain ⟨d, -, rfl⟩ := List.mem_map.mp hc
    exact d.2
  exact (append_unique (hblank b) (hblank b') hr hr' h).2

/-- What may stand right after a value. -/
def Follows (text : List Char) : Prop :=
  ∀ c ∈ text.head?, IsBlank c ∨ c = ',' ∨ c = ']' ∨ c = '\x7d'

/-! ## Strings and numbers -/

theorem Escape.letter_ne (e : Escape) : e.letter ≠ 'u' := by
  cases e <;> decide

theorem Escape.letter_injective : Function.Injective Escape.letter := by
  intro e e' h
  cases e <;> cases e' <;> first | rfl | exact absurd h (by decide)

theorem HexCode.text_unique
    {code code' : HexCode}
    {r r' : List Char}
    (h : code.text ++ r = code'.text ++ r') :
    code = code' ∧ r = r' := by
  simp only [HexCode.text, List.cons_append, List.nil_append, List.cons.injEq,
    Subtype.val_inj, true_and] at h
  obtain ⟨h₁, h₂, h₃, h₄, hr⟩ := h
  refine ⟨?_, hr⟩
  obtain ⟨a, b, c, d⟩ := code
  obtain ⟨a', b', c', d'⟩ := code'
  simp only at h₁ h₂ h₃ h₄
  subst h₁ h₂ h₃ h₄
  rfl

theorem HexCode.not_high_of_low
    {code : HexCode}
    (h : code.IsLowSurrogate) :
    ¬ code.IsHighSurrogate :=
  fun h' => absurd h'.2 (not_lt.mpr h.1)

theorem Item.head_eq (item : Item) :
    (∃ c : PlainChar, item = .plain c) ∨ ∃ rest, item.text = '\\' :: rest := by
  cases item with
  | plain c => exact .inl ⟨c, rfl⟩
  | escape e => exact .inr ⟨_, rfl⟩
  | unicode code => exact .inr ⟨_, rfl⟩
  | surrogates high low => exact .inr ⟨_, rfl⟩

theorem plain_unique
    {c : PlainChar}
    {item : Item}
    {r r' : List Char}
    (h : c.1 :: r = item.text ++ r') :
    .plain c = item ∧ r = r' := by
  rcases item.head_eq with ⟨c', rfl⟩ | ⟨rest, hrest⟩
  · obtain ⟨hc, hr⟩ := List.cons.inj h
    exact ⟨congrArg Item.plain (Subtype.ext hc), hr⟩
  · rw [hrest] at h
    exact absurd (List.cons.inj h).1 c.2.2.2

theorem item_unique
    {item item' : Item}
    {r r' : List Char}
    (h : item.text ++ r = item'.text ++ r') :
    item = item' ∧ r = r' := by
  -- After a backslash the letter tells the short escapes, and the first code a pair.
  cases item with
  | plain c => exact plain_unique h
  | escape e =>
      cases item' with
      | plain c =>
          obtain ⟨h, hr⟩ := plain_unique h.symm
          exact ⟨h.symm, hr.symm⟩
      | escape e' =>
          obtain ⟨he, hr⟩ : e.letter = e'.letter ∧ r = r' := by simpa [Item.text] using h
          exact ⟨congrArg Item.escape (Escape.letter_injective he), hr⟩
      | unicode code =>
          exact absurd (List.cons.inj (List.cons.inj h).2).1 e.letter_ne
      | surrogates high low =>
          exact absurd (List.cons.inj (List.cons.inj h).2).1 e.letter_ne
  | unicode code =>
      cases item' with
      | plain c =>
          obtain ⟨h, hr⟩ := plain_unique h.symm
          exact ⟨h.symm, hr.symm⟩
      | escape e =>
          exact absurd (List.cons.inj (List.cons.inj h).2).1.symm e.letter_ne
      | unicode code' =>
          obtain ⟨hcode, hr⟩ := HexCode.text_unique h
          exact ⟨congrArg Item.unicode (Subtype.ext hcode), hr⟩
      | surrogates high low =>
          rw [Item.text, Item.text, List.append_assoc] at h
          exact absurd high.2 ((HexCode.text_unique h).1 ▸ code.2.1)
  | surrogates high low =>
      rw [Item.text, List.append_assoc] at h
      cases item' with
      | plain c =>
          exact absurd (List.cons.inj h).1.symm c.2.2.2
      | escape e =>
          exact absurd (List.cons.inj (List.cons.inj h).2).1.symm e.letter_ne
      | unicode code =>
          exact absurd high.2 ((HexCode.text_unique h).1 ▸ code.2.1)
      | surrogates high' low' =>
          rw [Item.text, List.append_assoc] at h
          obtain ⟨hhigh, h⟩ := HexCode.text_unique h
          obtain ⟨hlow, hr⟩ := HexCode.text_unique h
          refine ⟨?_, hr⟩
          rw [Subtype.ext hhigh, Subtype.ext hlow]

theorem items_unique
    {items items' : List Item}
    {r r' : List Char}
    (h : itemsText items ++ '"' :: r = itemsText items' ++ '"' :: r') :
    items = items' ∧ r = r' := by
  have hquote :
      ∀ {item : Item} {rest : List Item} {r r' : List Char},
        '"' :: r ≠ itemsText (item :: rest) ++ r' := by
    intro item rest r r' h
    rw [show itemsText (item :: rest) = item.text ++ itemsText rest from rfl,
      List.append_assoc] at h
    rcases item.head_eq with ⟨c, rfl⟩ | ⟨tail, htail⟩
    · exact c.2.2.1 (List.cons.inj h).1.symm
    · rw [htail] at h
      exact absurd (List.cons.inj h).1 (by decide)
  induction items generalizing items' with
  | nil =>
      cases items' with
      | nil => exact ⟨rfl, (List.cons.inj h).2⟩
      | cons item' rest' => exact absurd h hquote
  | cons item rest ih =>
      cases items' with
      | nil => exact absurd h.symm hquote
      | cons item' rest' =>
          have hcons : item.text ++ (itemsText rest ++ '"' :: r) =
              item'.text ++ (itemsText rest' ++ '"' :: r') := by
            simpa [itemsText] using h
          obtain ⟨rfl, htail⟩ := item_unique hcons
          obtain ⟨rfl, hr⟩ := ih htail
          exact ⟨rfl, hr⟩

theorem string_unique
    {items items' : List Item}
    {r r' : List Char}
    (h : stringText items ++ r = stringText items' ++ r') :
    items = items' ∧ r = r' := by
  refine items_unique ?_
  simpa [stringText] using h

/-- The characters of numbers. -/
def IsNumberChar (c : Char) : Prop :=
  ('0' ≤ c ∧ c ≤ '9') ∨ c = '-' ∨ c = '+' ∨ c = '.' ∨ c = 'e' ∨ c = 'E'

instance : DecidablePred IsNumberChar :=
  fun c => inferInstanceAs (Decidable
    (('0' ≤ c ∧ c ≤ '9') ∨ c = '-' ∨ c = '+' ∨ c = '.' ∨ c = 'e' ∨ c = 'E'))

theorem isNumberChar_digits (digits : List Digit) : ∀ c ∈ digitsText digits, IsNumberChar c := by
  intro c hc
  obtain ⟨d, -, rfl⟩ := List.mem_map.mp hc
  exact .inl d.2

theorem isNumberChar_lead
    {c : Char}
    (hc : '0' ≤ c ∧ c ≤ '9')
    (rest : List Digit) :
    ∀ d ∈ c :: digitsText rest, IsNumberChar d := by
  intro d hd
  rcases List.mem_cons.mp hd with rfl | hd
  · exact .inl hc
  · exact isNumberChar_digits rest d hd

theorem isNumberChar_whole (whole : Whole) : ∀ c ∈ whole.text, IsNumberChar c := by
  cases whole with
  | zero => exact isNumberChar_lead (by decide) []
  | digits first rest =>
      exact isNumberChar_lead ⟨le_trans (by decide) first.2.1, first.2.2⟩ rest

theorem isNumberChar_exponent (exponent : Exponent) : ∀ c ∈ exponent.text, IsNumberChar c := by
  intro c hc
  rcases List.mem_cons.mp hc with rfl | hc
  · split <;> simp [IsNumberChar]
  rcases List.mem_append.mp hc with hc | hc
  · cases hsign : exponent.sign with
    | none => simp [hsign] at hc
    | some sign => cases sign <;> simp_all [Sign.text, IsNumberChar]
  · exact isNumberChar_lead exponent.first.2 exponent.rest c hc

theorem isNumberChar_text (numeral : Numeral) : ∀ c ∈ numeral.text, IsNumberChar c := by
  intro c hc
  rcases List.mem_append.mp hc with hc | hc
  · rcases List.mem_append.mp hc with hc | hc
    · rcases List.mem_append.mp hc with hc | hc
      · split at hc <;> simp_all [IsNumberChar]
      · exact isNumberChar_whole numeral.whole c hc
    · cases hfraction : numeral.fraction with
      | none => simp [hfraction] at hc
      | some fraction =>
          rw [hfraction] at hc
          rcases List.mem_cons.mp hc with rfl | hc
          · simp [IsNumberChar]
          · exact isNumberChar_lead fraction.1.2 fraction.2 c hc
  · cases hexponent : numeral.exponent with
    | none => simp [hexponent] at hc
    | some exponent =>
        rw [hexponent] at hc
        exact isNumberChar_exponent exponent c hc

theorem stops_number
    {text : List Char}
    (h : Follows text) :
    Stops IsNumberChar text := by
  intro c hc
  rcases h c hc with (rfl | rfl | rfl | rfl) | rfl | rfl | rfl <;> decide

theorem number_unique
    {numeral numeral' : Numeral}
    {r r' : List Char}
    (hr : Follows r)
    (hr' : Follows r')
    (h : numeral.text ++ r = numeral'.text ++ r') :
    numeral.text = numeral'.text ∧ r = r' :=
  append_unique (isNumberChar_text _) (isNumberChar_text _) (stops_number hr)
    (stops_number hr') h

theorem literal_unique
    {l l' : Literal}
    {r r' : List Char}
    (h : l.text ++ r = l'.text ++ r') :
    l = l' ∧ r = r' := by
  cases l <;> cases l' <;> simp_all [Literal.text]

/-! ## Values -/

inductive Kind
  | literal
  | number
  | string
  | array
  | object
deriving DecidableEq

/-- What kind of value a character begins. -/
def kindOf (c : Char) : Option Kind :=
  if c = 'n' ∨ c = 't' ∨ c = 'f' then some .literal
  else if c = '-' ∨ ('0' ≤ c ∧ c ≤ '9') then some .number
  else if c = '"' then some .string
  else if c = '[' then some .array
  else if c = '\x7b' then some .object
  else none

def Syntax.kind : Syntax → Kind
  | literal _ => .literal
  | number _ => .number
  | string _ => .string
  | array _ _ => .array
  | object _ _ => .object

theorem kindOf_digit
    {c : Char}
    (h : '0' ≤ c ∧ c ≤ '9') :
    kindOf c = some .number := by
  have hletter : ¬ (c = 'n' ∨ c = 't' ∨ c = 'f') := by
    rintro (rfl | rfl | rfl) <;> revert h <;> decide
  rw [kindOf, if_neg hletter, if_pos (.inr h)]

theorem numeral_head (numeral : Numeral) :
    ∃ c rest, numeral.text = c :: rest ∧ kindOf c = some .number := by
  unfold Numeral.text
  cases numeral.negative with
  | true => exact ⟨'-', _, rfl, by decide⟩
  | false =>
      cases numeral.whole with
      | zero => exact ⟨'0', _, rfl, by decide⟩
      | digits first rest =>
          exact ⟨first.1, _, rfl, kindOf_digit ⟨le_trans (by decide) first.2.1, first.2.2⟩⟩

/-- The first character of a value tells its kind. -/
theorem Syntax.text_head (value : Syntax) :
    ∃ c rest, value.text = c :: rest ∧ kindOf c = some value.kind := by
  cases value with
  | literal l => cases l <;> exact ⟨_, _, rfl, by decide⟩
  | number numeral => exact numeral_head numeral
  | string items => exact ⟨'"', _, rfl, rfl⟩
  | array inside elements => exact ⟨'[', _, rfl, rfl⟩
  | object inside members => exact ⟨'\x7b', _, rfl, rfl⟩

theorem kind_unique
    {value value' : Syntax}
    {r r' : List Char}
    (h : value.text ++ r = value'.text ++ r') :
    value.kind = value'.kind := by
  obtain ⟨c, rest, htext, hc⟩ := value.text_head
  obtain ⟨c', rest', htext', hc'⟩ := value'.text_head
  rw [htext, htext'] at h
  obtain rfl := (List.cons.inj h).1
  exact Option.some.inj (hc.symm.trans hc')

/-- No value begins with a blank, nor with what follows one. -/
theorem Syntax.text_ne
    {value : Syntax}
    {c : Char}
    {r r' : List Char}
    (hc : kindOf c = none) :
    value.text ++ r ≠ c :: r' := by
  intro h
  obtain ⟨d, rest, htext, hd⟩ := value.text_head
  rw [htext] at h
  obtain rfl := (List.cons.inj h).1
  simp [hc] at hd

theorem Syntax.stops_text
    (value : Syntax)
    (r : List Char) :
    Stops IsBlank (value.text ++ r) := by
  obtain ⟨c, rest, htext, hc⟩ := value.text_head
  intro d hd hblank
  rw [htext] at hd
  obtain rfl : c = d := by simpa using hd
  rcases hblank with rfl | rfl | rfl | rfl <;> revert hc <;> cases value.kind <;> decide

theorem stops_cons
    {c : Char}
    {r : List Char}
    (hc : ¬ IsBlank c) :
    Stops IsBlank (c :: r) := by
  intro d hd
  obtain rfl : c = d := by simpa using hd
  exact hc

theorem blank_append_unique
    {b b' d d' : Blank}
    {r r' : List Char}
    (hr : Stops IsBlank r)
    (hr' : Stops IsBlank r')
    (h : blankText b ++ (blankText d ++ r) = blankText b' ++ (blankText d' ++ r')) :
    r = r' := by
  have happend : ∀ b d : Blank, ∀ r, blankText b ++ (blankText d ++ r) =
      blankText (b ++ d) ++ r := by
    intro b d r
    simp [blankText]
  rw [happend, happend] at h
  exact blank_unique hr hr' h

theorem blank_token_unique
    {b b' d : Blank}
    {r r' : List Char}
    (hr : Stops IsBlank r)
    (hr' : Stops IsBlank r')
    (h : blankText b ++ (blankText d ++ r) = blankText b' ++ r') :
    r = r' := by
  have hempty : blankText b' ++ r' = blankText b' ++ (blankText [] ++ r') := rfl
  exact blank_append_unique hr hr' (h.trans hempty)

theorem follows_blank
    {r : List Char}
    (b : Blank)
    (h : Follows r) :
    Follows (blankText b ++ r) := by
  cases b with
  | nil => exact h
  | cons c rest =>
      intro d hd
      obtain rfl : c.1 = d := by simpa [blankText] using hd
      exact .inl c.2

namespace Syntax

/-- After a value comes a comma if there is more, else the closing bracket. -/
theorem head_comma
    {α : Type}
    {rest : List α}
    {tail r : List Char}
    {close c : Char}
    (hnil : rest = [] → tail = [])
    (hc : c ∈ (comma rest ++ (tail ++ close :: r)).head?) :
    c = ',' ∨ c = close := by
  cases rest with
  | nil =>
      rw [hnil rfl] at hc
      exact .inr (by simpa [comma] using hc.symm)
  | cons first more => exact .inl (by simpa [comma] using hc.symm)

theorem comma_unique
    {α : Type}
    {rest rest' : List α}
    {tail tail' r r' : List Char}
    {close : Char}
    (hclose : close ≠ ',')
    (hnil : rest = [] → tail = [])
    (hnil' : rest' = [] → tail' = [])
    (h : comma rest ++ (tail ++ close :: r) = comma rest' ++ (tail' ++ close :: r')) :
    tail ++ close :: r = tail' ++ close :: r' := by
  cases rest with
  | nil =>
      cases rest' with
      | nil => exact h
      | cons first' more' =>
          rw [hnil rfl] at h
          exact absurd (List.cons.inj h).1 hclose
  | cons first more =>
      cases rest' with
      | nil =>
          rw [hnil' rfl] at h
          exact absurd (List.cons.inj h).1.symm hclose
      | cons first' more' => exact (List.cons.inj h).2

theorem textElements_nil {rest : List (Gap × Syntax)} : rest = [] → textElements rest = [] := by
  rintro rfl
  rfl

theorem textMembers_nil {rest : List (Label × Syntax)} : rest = [] → textMembers rest = [] := by
  rintro rfl
  rfl

theorem follows_elements
    (rest : List (Gap × Syntax))
    (r : List Char) :
    Follows (comma rest ++ (textElements rest ++ ']' :: r)) := by
  intro c hc
  rcases head_comma textElements_nil hc with rfl | rfl <;> simp

theorem follows_members
    (rest : List (Label × Syntax))
    (r : List Char) :
    Follows (comma rest ++ (textMembers rest ++ '\x7d' :: r)) := by
  intro c hc
  rcases head_comma textMembers_nil hc with rfl | rfl <;> simp

theorem stops_elements
    (rest : List (Gap × Syntax))
    (r : List Char) :
    Stops IsBlank (comma rest ++ (textElements rest ++ ']' :: r)) := by
  intro c hc
  rcases head_comma textElements_nil hc with rfl | rfl <;> decide

theorem stops_members
    (rest : List (Label × Syntax))
    (r : List Char) :
    Stops IsBlank (comma rest ++ (textMembers rest ++ '\x7d' :: r)) := by
  intro c hc
  rcases head_comma textMembers_nil hc with rfl | rfl <;> decide

theorem textElements_cons
    (gap : Gap)
    (value : Syntax)
    (rest : List (Gap × Syntax))
    (r : List Char) :
    textElements ((gap, value) :: rest) ++ r =
      blankText gap.before ++ (value.text ++ (blankText gap.after ++
        (comma rest ++ (textElements rest ++ r)))) := by
  simp [textElements]

theorem textMembers_cons
    (label : Label)
    (value : Syntax)
    (rest : List (Label × Syntax))
    (r : List Char) :
    textMembers ((label, value) :: rest) ++ r =
      blankText label.before ++ (stringText label.key ++ (blankText label.afterKey ++
        ':' :: (blankText label.beforeValue ++ (value.text ++ (blankText label.afterValue ++
          (comma rest ++ (textMembers rest ++ r))))))) := by
  simp [textMembers, Label.text]

/-- A key is read like a string value. -/
theorem stops_stringText
    (items : List Item)
    (r : List Char) :
    Stops IsBlank (stringText items ++ r) :=
  stops_text (.string items) r

mutual

theorem text_unique :
    ∀ (value value' : Syntax) {r r' : List Char}, Follows r → Follows r' →
      value.text ++ r = value'.text ++ r' → value.data = value'.data ∧ r = r'
  | literal l, value', r, r', _, _, h => by
      have hkind := kind_unique h
      cases value' with
      | literal l' =>
          obtain ⟨rfl, hr⟩ := literal_unique h
          exact ⟨rfl, hr⟩
      | _ => simp [kind] at hkind
  | number numeral, value', r, r', hf, hf', h => by
      have hkind := kind_unique h
      cases value' with
      | number numeral' =>
          obtain ⟨htext, hr⟩ := number_unique hf hf' h
          exact ⟨congrArg Data.number htext, hr⟩
      | _ => simp [kind] at hkind
  | string items, value', r, r', _, _, h => by
      have hkind := kind_unique h
      cases value' with
      | string items' =>
          obtain ⟨rfl, hr⟩ := string_unique h
          exact ⟨rfl, hr⟩
      | _ => simp [kind] at hkind
  | array inside elements, value', r, r', _, _, h => by
      have hkind := kind_unique h
      cases value' with
      | array inside' elements' =>
          have hbody : blankText inside ++ (textElements elements ++ ']' :: r) =
              blankText inside' ++ (textElements elements' ++ ']' :: r') := by
            simpa [text] using h
          obtain ⟨hdata, hr⟩ := elements_unique elements elements' inside inside' hbody
          exact ⟨congrArg Data.array hdata, hr⟩
      | _ => simp [kind] at hkind
  | object inside members, value', r, r', _, _, h => by
      have hkind := kind_unique h
      cases value' with
      | object inside' members' =>
          have hbody : blankText inside ++ (textMembers members ++ '\x7d' :: r) =
              blankText inside' ++ (textMembers members' ++ '\x7d' :: r') := by
            simpa [text] using h
          obtain ⟨hdata, hr⟩ := members_unique members members' inside inside' hbody
          exact ⟨congrArg Data.object hdata, hr⟩
      | _ => simp [kind] at hkind

theorem elements_unique :
    ∀ (elements elements' : List (Gap × Syntax)) (b b' : Blank) {r r' : List Char},
      blankText b ++ (textElements elements ++ ']' :: r) =
        blankText b' ++ (textElements elements' ++ ']' :: r') →
      dataElements elements = dataElements elements' ∧ r = r'
  | [], [], _, _, _, _, h => by
      have hclose := blank_unique (stops_cons (by decide))
        (stops_cons (by decide)) h
      exact ⟨rfl, (List.cons.inj hclose).2⟩
  | [], (gap, value) :: rest, b, _, _, _, h => by
      rw [textElements_cons] at h
      have hclose := blank_token_unique (value.stops_text _) (stops_cons (by decide)) h.symm
      exact absurd hclose (text_ne (by decide))
  | (gap, value) :: rest, [], _, _, _, _, h => by
      rw [textElements_cons] at h
      have hclose := blank_token_unique (value.stops_text _) (stops_cons (by decide)) h
      exact absurd hclose (text_ne (by decide))
  | (gap, value) :: rest, (gap', value') :: rest', _, _, r, r', h => by
      rw [textElements_cons, textElements_cons] at h
      have hvalue := blank_append_unique (value.stops_text _) (value'.stops_text _) h
      obtain ⟨hdata, hafter⟩ := text_unique value value'
        (follows_blank gap.after (follows_elements rest r))
        (follows_blank gap'.after (follows_elements rest' r')) hvalue
      have htail := comma_unique (by decide) textElements_nil textElements_nil
        (blank_unique (stops_elements rest r) (stops_elements rest' r') hafter)
      obtain ⟨hrest, hr⟩ := elements_unique rest rest' [] [] htail
      exact ⟨by rw [dataElements, dataElements, hdata, hrest], hr⟩

theorem members_unique :
    ∀ (members members' : List (Label × Syntax)) (b b' : Blank) {r r' : List Char},
      blankText b ++ (textMembers members ++ '\x7d' :: r) =
        blankText b' ++ (textMembers members' ++ '\x7d' :: r') →
      dataMembers members = dataMembers members' ∧ r = r'
  | [], [], _, _, _, _, h => by
      have hclose := blank_unique (stops_cons (by decide))
        (stops_cons (by decide)) h
      exact ⟨rfl, (List.cons.inj hclose).2⟩
  | [], (label, value) :: rest, b, _, _, _, h => by
      rw [textMembers_cons] at h
      have hclose := blank_token_unique (stops_stringText label.key _)
        (stops_cons (by decide)) h.symm
      exact absurd (List.cons.inj hclose).1 (by decide)
  | (label, value) :: rest, [], _, _, _, _, h => by
      rw [textMembers_cons] at h
      have hclose := blank_token_unique (stops_stringText label.key _)
        (stops_cons (by decide)) h
      exact absurd (List.cons.inj hclose).1 (by decide)
  | (label, value) :: rest, (label', value') :: rest', _, _, r, r', h => by
      rw [textMembers_cons, textMembers_cons] at h
      obtain ⟨hkey, hcolon⟩ := string_unique (blank_append_unique
        (stops_stringText label.key _) (stops_stringText label'.key _) h)
      have hvalue := (List.cons.inj (blank_unique (stops_cons (by decide))
        (stops_cons (by decide)) hcolon)).2
      obtain ⟨hdata, hafter⟩ := text_unique value value'
        (follows_blank label.afterValue (follows_members rest r))
        (follows_blank label'.afterValue (follows_members rest' r'))
        (blank_unique (value.stops_text _) (value'.stops_text _) hvalue)
      have htail := comma_unique (by decide) textMembers_nil textMembers_nil
        (blank_unique (stops_members rest r) (stops_members rest' r') hafter)
      obtain ⟨hrest, hr⟩ := members_unique rest rest' [] [] htail
      exact ⟨by rw [dataMembers, dataMembers, Label.keyChars, Label.keyChars, hkey, hdata,
        hrest], hr⟩

end

end Syntax

/-- Two trees with one text say the same. -/
theorem Document.data_unique
    {document document' : Document}
    (h : document.text = document'.text) :
    document.value.data = document'.value.data := by
  have hassoc : ∀ document : Document, document.text =
      blankText document.before ++ (document.value.text ++ (blankText document.after ++ [])) := by
    intro document
    simp [Document.text]
  have hend : Follows [] := by
    intro c hc
    simp at hc
  rw [hassoc, hassoc] at h
  exact (Syntax.text_unique _ _ (follows_blank _ hend) (follows_blank _ hend)
    (blank_unique (document.value.stops_text _) (document'.value.stops_text _) h)).1

end JsonSyntax
end FutureOs
