import Mathlib

/-!
# JSON texts

The productions of the JSON grammar for strings, arrays and objects, as operations on
languages.  White space may stand between tokens and characters may be escaped, so one
value has many texts.  Writing tokens and characters down as they are gives a text no
longer than any of them, and it is one of them only if no character needs an escape.
-/

namespace LibNet.Text

section Spells

variable {α ι : Type}

/-- `bare` is no longer than any text of the language, and belongs to it exactly when
`Plain` holds; no other text is as short unless `Plain` holds. -/
structure Spells (texts : Language α) (bare : List α) (Plain : Prop) : Prop where
  mem : Plain → bare ∈ texts
  shortest : ∀ text ∈ texts, bare.length ≤ text.length
  tight : ∀ text ∈ texts, text.length ≤ bare.length → Plain

variable {texts others : Language α} {bare bare' : List α} {Plain Plain' : Prop}

theorem Spells.congr (spells : Spells texts bare Plain) (same : Plain ↔ Plain') :
    Spells texts bare Plain' where
  mem := fun plain => spells.mem (same.mpr plain)
  shortest := spells.shortest
  tight := fun text member short => same.mp (spells.tight text member short)

theorem Spells.one : Spells (1 : Language α) [] True where
  mem := fun _ => Language.nil_mem_one
  shortest := fun _ _ => Nat.zero_le _
  tight := fun _ _ _ => trivial

/-- A single text is its own shortest one. -/
theorem Spells.singleton (text : List α) : Spells {text} text True where
  mem := fun _ => rfl
  shortest := by
    rintro other rfl
    exact Nat.le_refl _
  tight := fun _ _ _ => trivial

/-- Concatenation adds lengths, so it is tight only if both parts are. -/
theorem Spells.mul (first : Spells texts bare Plain) (second : Spells others bare' Plain') :
    Spells (texts * others) (bare ++ bare') (Plain ∧ Plain') where
  mem := fun ⟨plain, plain'⟩ => Language.append_mem_mul (first.mem plain) (second.mem plain')
  shortest := by
    intro text member
    obtain ⟨left, isLeft, right, isRight, rfl⟩ := Language.mem_mul.mp member
    have shorter := first.shortest left isLeft
    have shorter' := second.shortest right isRight
    simp only [List.length_append]
    omega
  tight := by
    intro text member short
    obtain ⟨left, isLeft, right, isRight, rfl⟩ := Language.mem_mul.mp member
    have shorter := first.shortest left isLeft
    have shorter' := second.shortest right isRight
    simp only [List.length_append] at short
    exact ⟨first.tight left isLeft (by omega), second.tight right isRight (by omega)⟩

variable {lang : ι → Language α} {spelling : ι → List α} {PlainAt : ι → Prop}

/-- A sequence of texts. -/
theorem Spells.prod {items : List ι}
    (each : ∀ item ∈ items, Spells (lang item) (spelling item) (PlainAt item)) :
    Spells (items.map lang).prod (items.map spelling).flatten (∀ item ∈ items, PlainAt item) := by
  induction items with
  | nil => exact Spells.one.congr (by simp)
  | cons item rest ih =>
      obtain ⟨here, later⟩ := List.forall_mem_cons.mp each
      simp only [List.map_cons, List.prod_cons, List.flatten_cons]
      exact (here.mul (ih later)).congr List.forall_mem_cons.symm

/-- Texts with another one between each two of them. -/
def separated (separator : Language α) : List (Language α) → Language α
  | [] => 1
  | [item] => item
  | item :: next :: rest => item * separator * separated separator (next :: rest)

/-- The texts between separators that are always plain. -/
theorem Spells.separated {separator : Language α} {mark : List α}
    (plain_mark : Spells separator mark True) {items : List ι}
    (each : ∀ item ∈ items, Spells (lang item) (spelling item) (PlainAt item)) :
    Spells (separated separator (items.map lang)) (mark.intercalate (items.map spelling))
      (∀ item ∈ items, PlainAt item) := by
  induction items with
  | nil => exact Spells.one.congr (by simp)
  | cons item rest ih =>
      obtain ⟨here, later⟩ := List.forall_mem_cons.mp each
      cases rest with
      | nil =>
          simp only [List.map_cons, List.map_nil, Text.separated, List.intercalate_singleton]
          exact here.congr (by simp)
      | cons next others =>
          have behind := (here.mul plain_mark).mul (ih later)
          simp only [List.map_cons, Text.separated, List.intercalate_cons_cons] at behind ⊢
          exact behind.congr (by rw [and_true, ← List.forall_mem_cons])

end Spells

section SelfDelimiting

variable {α ι : Type}

/-- Plain items are read back from the front of what follows, one way only. -/
def SelfDelimiting (Plain : ι → Prop) (spelling : ι → List α) : Prop :=
  ∀ item other rest rest', Plain item → Plain other →
    spelling item ++ rest = spelling other ++ rest' → item = other ∧ rest = rest'

theorem intercalate_cons (mark : α) (first : List α) (others : List (List α)) :
    [mark].intercalate (first :: others) = first ++ others.flatMap fun text => mark :: text := by
  induction others generalizing first with
  | nil => simp
  | cons next rest ih => rw [List.intercalate_cons_cons, ih, List.flatMap_cons]; simp

theorem length_intercalate_le {shorter longer : ι → List α} (mark : List α) {items : List ι}
    (each : ∀ item ∈ items, (shorter item).length ≤ (longer item).length) :
    (mark.intercalate (items.map shorter)).length ≤
      (mark.intercalate (items.map longer)).length := by
  induction items with
  | nil => exact Nat.le_refl _
  | cons item rest ih =>
      obtain ⟨here, later⟩ := List.forall_mem_cons.mp each
      cases rest with
      | nil => simpa using here
      | cons next others =>
          have behind := ih later
          simp only [List.map_cons, List.intercalate_cons_cons, List.length_append] at behind ⊢
          omega

/-- What is in no item and is not the mark. -/
theorem notMem_intercalate {char mark : α} {texts : List (List α)} (other : char ≠ mark)
    (each : ∀ text ∈ texts, char ∉ text) : char ∉ [mark].intercalate texts := by
  cases texts with
  | nil => simp
  | cons text rest =>
      obtain ⟨here, later⟩ := List.forall_mem_cons.mp each
      rw [intercalate_cons, List.mem_append, List.mem_flatMap]
      rintro (member | ⟨next, isNext, member⟩)
      · exact here member
      · exact (List.mem_cons.mp member).elim other (later next isNext)

variable {Plain : ι → Prop} {spelling : ι → List α} {mark close : α}

/-- Marked items are read back up to a closing mark that is no item's mark. -/
theorem SelfDelimiting.marked (each : SelfDelimiting Plain spelling) (differ : mark ≠ close) :
    SelfDelimiting (fun items : List ι => ∀ item ∈ items, Plain item)
      (fun items => (items.map spelling).flatMap (fun text => mark :: text) ++ [close]) := by
  intro items others rest rest' plain plain' same
  induction items generalizing others with
  | nil =>
      cases others with
      | nil => simpa using same
      | cons other more =>
          simp only [List.map_nil, List.flatMap_nil, List.nil_append, List.map_cons,
            List.flatMap_cons, List.cons_append, List.cons.injEq] at same
          exact absurd same.1.symm differ
  | cons item more ih =>
      obtain ⟨here, later⟩ := List.forall_mem_cons.mp plain
      cases others with
      | nil =>
          simp only [List.map_nil, List.flatMap_nil, List.nil_append, List.map_cons,
            List.flatMap_cons, List.cons_append, List.cons.injEq] at same
          exact absurd same.1 differ
      | cons other more' =>
          obtain ⟨here', later'⟩ := List.forall_mem_cons.mp plain'
          simp only [List.map_cons, List.flatMap_cons, List.cons_append, List.append_assoc,
            List.cons.injEq, true_and] at same
          obtain ⟨rfl, behind⟩ := each _ _ _ _ here here' same
          obtain ⟨rfl, ends⟩ := ih _ later later' (by simpa using behind)
          exact ⟨rfl, ends⟩

/-- Separated items are read back up to a closing mark that starts no item. -/
theorem SelfDelimiting.separated (each : SelfDelimiting Plain spelling) (differ : mark ≠ close)
    (starts : ∀ item, ∃ first text, spelling item = first :: text ∧ first ≠ close) :
    SelfDelimiting (fun items : List ι => ∀ item ∈ items, Plain item)
      (fun items => [mark].intercalate (items.map spelling) ++ [close]) := by
  intro items others rest rest' plain plain' same
  cases items with
  | nil =>
      cases others with
      | nil => simpa using same
      | cons other more =>
          obtain ⟨first, text, spelled, opens⟩ := starts other
          simp only [List.map_nil, List.intercalate_nil, List.nil_append, List.map_cons,
            intercalate_cons, spelled, List.cons_append, List.cons.injEq] at same
          exact absurd same.1.symm opens
  | cons item more =>
      obtain ⟨here, later⟩ := List.forall_mem_cons.mp plain
      cases others with
      | nil =>
          obtain ⟨first, text, spelled, opens⟩ := starts item
          simp only [List.map_nil, List.intercalate_nil, List.nil_append, List.map_cons,
            intercalate_cons, spelled, List.cons_append, List.cons.injEq] at same
          exact absurd same.1 opens
      | cons other more' =>
          obtain ⟨here', later'⟩ := List.forall_mem_cons.mp plain'
          simp only [List.map_cons, intercalate_cons, List.append_assoc] at same
          obtain ⟨rfl, behind⟩ := each _ _ _ _ here here' same
          obtain ⟨rfl, ends⟩ := each.marked differ _ _ _ _ later later' (by simpa using behind)
          exact ⟨rfl, ends⟩

end SelfDelimiting

/-! ## The grammar -/

/-- White space. -/
def ws : Language Char :=
  {text | ∀ char ∈ text, char = ' ' ∨ char = '\t' ∨ char = '\n' ∨ char = '\r'}

/-- A structural character, with white space around it. -/
def token (char : Char) : Language Char := ws * {[char]} * ws

/-- The characters a string may hold as they are. -/
def Unescaped (char : Char) : Prop := 0x20 ≤ char.toNat ∧ char ≠ '"' ∧ char ≠ '\\'

instance (char : Char) : Decidable (Unescaped char) :=
  inferInstanceAs (Decidable (_ ∧ _ ∧ _))

/-- The letter that stands for a character behind a backslash. -/
def shortEscape : Char → Option Char
  | '"' => some '"'
  | '\\' => some '\\'
  | '/' => some '/'
  | '\x08' => some 'b'
  | '\x0c' => some 'f'
  | '\n' => some 'n'
  | '\r' => some 'r'
  | '\t' => some 't'
  | _ => none

/-- The value of a hexadecimal digit. -/
def hexDigit (digit : Char) : Option Nat :=
  if digit.isDigit then some (digit.toNat - '0'.toNat)
  else if 'a' ≤ digit ∧ digit ≤ 'f' then some (digit.toNat - 'a'.toNat + 10)
  else if 'A' ≤ digit ∧ digit ≤ 'F' then some (digit.toNat - 'A'.toNat + 10)
  else none

/-- A UTF-16 unit behind a backslash, in four hexadecimal digits. -/
def unitEscape (unit : Nat) : Language Char :=
  {text | ∃ first second third fourth : Char,
    text = ['\\', 'u', first, second, third, fourth] ∧
    ∃ a b c d : Nat, hexDigit first = some a ∧ hexDigit second = some b ∧
      hexDigit third = some c ∧ hexDigit fourth = some d ∧
      unit = ((a * 16 + b) * 16 + c) * 16 + d}

/-- The UTF-16 units of a character. -/
def utf16 (char : Char) : List Nat :=
  if char.toNat < 0x10000 then [char.toNat]
  else [0xD800 + (char.toNat - 0x10000) / 0x400, 0xDC00 + (char.toNat - 0x10000) % 0x400]

/-- A character written as it is, if it may be. -/
def unescapedTexts (char : Char) : Language Char := {text | text = [char] ∧ Unescaped char}

/-- A character written as a letter behind a backslash. -/
def escapedTexts (char : Char) : Language Char :=
  {text | ∃ letter, shortEscape char = some letter ∧ text = ['\\', letter]}

/-- The ways to write a character in a string. -/
def charTexts (char : Char) : Language Char :=
  unescapedTexts char + escapedTexts char + ((utf16 char).map unitEscape).prod

def stringTexts (chars : List Char) : Language Char :=
  {['"']} * (chars.map charTexts).prod * {['"']}

def arrayTexts (items : List (Language Char)) : Language Char :=
  token '[' * separated (token ',') items * token ']'

def memberTexts (member : List Char × Language Char) : Language Char :=
  stringTexts member.1 * token ':' * member.2

def objectTexts (members : List (List Char × Language Char)) : Language Char :=
  token '\x7b' * separated (token ',') (members.map memberTexts) * token '\x7d'

/-- A whole text: a value with white space around it. -/
def jsonTexts (value : Language Char) : Language Char := ws * value * ws

/-! ## Writing values down as they are -/

def bareString (chars : List Char) : List Char := '"' :: chars ++ ['"']

def bareArray (items : List (List Char)) : List Char :=
  '[' :: [','].intercalate items ++ [']']

def bareMember (member : List Char × List Char) : List Char :=
  bareString member.1 ++ ':' :: member.2

def bareObject (members : List (List Char × List Char)) : List Char :=
  '\x7b' :: [','].intercalate (members.map bareMember) ++ ['\x7d']

theorem spells_ws : Spells ws [] True where
  mem := by
    intro _ char member
    cases member
  shortest := fun _ _ => Nat.zero_le _
  tight := fun _ _ _ => trivial

theorem spells_token (char : Char) : Spells (token char) [char] True :=
  ((spells_ws.mul (.singleton [char])).mul spells_ws).congr (by simp)

theorem two_le_of_utf16 {char : Char} {text : List Char}
    (member : text ∈ ((utf16 char).map unitEscape).prod) : 2 ≤ text.length := by
  have units : ∃ unit rest, utf16 char = unit :: rest := by
    unfold utf16
    split
    · exact ⟨_, _, rfl⟩
    · exact ⟨_, _, rfl⟩
  obtain ⟨unit, rest, isUnits⟩ := units
  rw [isUnits, List.map_cons, List.prod_cons] at member
  obtain ⟨escape, isEscape, later, _, rfl⟩ := Language.mem_mul.mp member
  obtain ⟨first, second, third, fourth, rfl, _⟩ := isEscape
  simp only [List.length_append, List.length_cons]
  omega

/-- Every way to write a character but the plain one takes two characters at least. -/
theorem spells_char (char : Char) : Spells (charTexts char) [char] (Unescaped char) := by
  have length : ∀ text ∈ charTexts char, Unescaped char ∧ text.length = 1 ∨ 2 ≤ text.length := by
    rintro text ((⟨rfl, plain⟩ | ⟨letter, _, rfl⟩) | escaped)
    · exact .inl ⟨plain, rfl⟩
    · exact .inr (Nat.le_refl _)
    · exact .inr (two_le_of_utf16 escaped)
  refine ⟨fun plain => Or.inl (Or.inl ⟨rfl, plain⟩), ?_, ?_⟩
  · intro text member
    rcases length text member with ⟨_, one⟩ | two
    · exact Nat.le_of_eq one.symm
    · exact Nat.le_of_succ_le two
  · intro text member short
    rcases length text member with ⟨plain, _⟩ | two
    · exact plain
    · exact absurd (Nat.le_trans two short) (by simp)

theorem spells_string (chars : List Char) :
    Spells (stringTexts chars) (bareString chars) (∀ char ∈ chars, Unescaped char) := by
  have body := Spells.prod fun char (_ : char ∈ chars) => spells_char char
  have quoted := ((Spells.singleton ['"']).mul body).mul (.singleton ['"'])
  simp only [← List.flatMap_def, List.flatMap_singleton'] at quoted
  exact quoted.congr (by simp)

section Values

variable {ι : Type} {items : List ι} {lang : ι → Language Char} {spelling : ι → List Char}
  {PlainAt : ι → Prop}

theorem spells_array
    (each : ∀ item ∈ items, Spells (lang item) (spelling item) (PlainAt item)) :
    Spells (arrayTexts (items.map lang)) (bareArray (items.map spelling))
      (∀ item ∈ items, PlainAt item) :=
  (((spells_token '[').mul ((spells_token ',').separated each)).mul (spells_token ']')).congr
    (by simp)

theorem spells_member (name : List Char) {value : Language Char} {bare : List Char} {Plain : Prop}
    (spells : Spells value bare Plain) :
    Spells (memberTexts (name, value)) (bareMember (name, bare))
      ((∀ char ∈ name, Unescaped char) ∧ Plain) := by
  have member := ((spells_string name).mul (spells_token ':')).mul spells
  simp only [List.append_assoc, List.singleton_append] at member
  exact member.congr (by simp)

theorem spells_object {name : ι → List Char}
    (each : ∀ item ∈ items, Spells (lang item) (spelling item) (PlainAt item)) :
    Spells (objectTexts (items.map fun item => (name item, lang item)))
      (bareObject (items.map fun item => (name item, spelling item)))
      (∀ item ∈ items, (∀ char ∈ name item, Unescaped char) ∧ PlainAt item) := by
  have members := (spells_token ',').separated fun item isItem =>
    spells_member (name item) (each item isItem)
  have whole := ((spells_token '\x7b').mul members).mul (spells_token '\x7d')
  simp only [objectTexts, bareObject, List.map_map, Function.comp_def]
  exact whole.congr (by simp)

theorem spells_json {value : Language Char} {bare : List Char} {Plain : Prop}
    (spells : Spells value bare Plain) : Spells (jsonTexts value) bare Plain := by
  have whole := (spells_ws.mul spells).mul spells_ws
  simp only [List.nil_append, List.append_nil] at whole
  exact whole.congr (by simp)

end Values

/-- A string without quotes ends at the next quote. -/
theorem selfDelimiting_string :
    SelfDelimiting (fun chars => ∀ char ∈ chars, Unescaped char) bareString := by
  intro chars others rest rest' plain plain' same
  have upToQuote : ∀ text rest : List Char, (∀ char ∈ text, Unescaped char) →
      (text ++ '"' :: rest).takeWhile (fun char => decide (char ≠ '"')) = text := by
    intro text rest plain
    rw [List.takeWhile_append_of_pos fun char member => by simpa using (plain char member).2.1]
    simp
  simp only [bareString, List.cons_append, List.append_assoc, List.cons.injEq, true_and,
    List.nil_append] at same
  have first := congrArg (List.takeWhile fun char => decide (char ≠ '"')) same
  rw [upToQuote _ _ plain, upToQuote _ _ plain'] at first
  subst first
  exact ⟨rfl, by simpa using same⟩

/-- A member with a string for its value. -/
theorem selfDelimiting_member :
    SelfDelimiting
      (fun field : List Char × List Char =>
        (∀ char ∈ field.1, Unescaped char) ∧ ∀ char ∈ field.2, Unescaped char)
      (fun field => bareMember (field.1, bareString field.2)) := by
  rintro ⟨name, value⟩ ⟨name', value'⟩ rest rest' plain plain' same
  simp only [bareMember, List.append_assoc, List.cons_append] at same
  obtain ⟨rfl, behind⟩ := selfDelimiting_string _ _ _ _ plain.1 plain'.1 same
  obtain ⟨rfl, ends⟩ :=
    selfDelimiting_string _ _ _ _ plain.2 plain'.2 (List.cons.inj behind).2
  exact ⟨rfl, ends⟩

end LibNet.Text
