import Mathlib.Data.List.Basic
import Mathlib.Data.List.TakeWhile
import VitaMTP.Library.Decimal
import VitaMTP.Library.Tokens

/-! XML documents that are one empty element, as XML 1.0 has them read. -/
namespace Xml
open Decimal

abbrev Attribute := List Char × List Char

structure Element where
  tag : List Char
  attributes : List Attribute
  deriving DecidableEq, Repr

def inRanges (ranges : List (ℕ × ℕ)) (ch : Char) : Bool :=
  ranges.any fun range => range.1 ≤ ch.toNat && ch.toNat ≤ range.2

/-- The characters a document may have. -/
def isChar : Char → Bool :=
  inRanges [(0x9, 0xA), (0xD, 0xD), (0x20, 0xD7FF), (0xE000, 0xFFFD), (0x10000, 0x10FFFF)]

def nameStartRanges : List (ℕ × ℕ) :=
  [(0x3A, 0x3A), (0x41, 0x5A), (0x5F, 0x5F), (0x61, 0x7A), (0xC0, 0xD6), (0xD8, 0xF6),
    (0xF8, 0x2FF), (0x370, 0x37D), (0x37F, 0x1FFF), (0x200C, 0x200D), (0x2070, 0x218F),
    (0x2C00, 0x2FEF), (0x3001, 0xD7FF), (0xF900, 0xFDCF), (0xFDF0, 0xFFFD), (0x10000, 0xEFFFF)]

def isNameStart : Char → Bool := inRanges nameStartRanges

def isNameChar : Char → Bool :=
  inRanges (nameStartRanges ++
    [(0x2D, 0x2E), (0x30, 0x39), (0xB7, 0xB7), (0x300, 0x36F), (0x203F, 0x2040)])

def isBlank (ch : Char) : Bool := ch == ' ' || ch == '\t' || ch == '\n' || ch == '\r'

def readName (text : List Char) : Option (List Char × List Char) :=
  match text.takeWhile isNameChar with
  | [] => none
  | ch :: name => if isNameStart ch then some (ch :: name, text.dropWhile isNameChar) else none

def digitValue (ch : Char) : Option ℕ :=
  if ch.isDigit then some (ch.toNat - '0'.toNat)
  else if 'a' ≤ ch ∧ ch ≤ 'f' then some (ch.toNat - 'a'.toNat + 10)
  else if 'A' ≤ ch ∧ ch ≤ 'F' then some (ch.toNat - 'A'.toNat + 10)
  else none

/-- The character with a number. -/
def charRef (base : ℕ) (digits : List Char) : Option Char := do
  let number ← digits.foldlM (fun n ch => do
    let digit ← digitValue ch
    if digit < base then some (base * n + digit) else none) 0
  if digits ≠ [] ∧ number.isValidChar ∧ isChar (Char.ofNat number) then some (Char.ofNat number)
  else none

/-- What is between `&` and `;`. No entities but the predefined ones are declared. -/
def reference : List Char → Option Char
  | '#' :: 'x' :: digits => charRef 16 digits
  | '#' :: digits => charRef 10 digits
  | ['l', 't'] => some '<'
  | ['g', 't'] => some '>'
  | ['a', 'm', 'p'] => some '&'
  | ['a', 'p', 'o', 's'] => some '\''
  | ['q', 'u', 'o', 't'] => some '"'
  | _ => none

/-- The value of what is between the quotes. Within a reference, `name` is what it has so far,
from the last character on. White space becomes blanks, and the end of a line one blank. -/
def decodeValue : Option (List Char) → List Char → Option (List Char)
  | none, [] => some []
  | some _, [] => none
  | none, ch :: text =>
    if ch = '<' then none
    else if ch = '&' then decodeValue (some []) text
    else if ch = '\r' ∧ text.head? = some '\n' then decodeValue none text
    else if isBlank ch then (decodeValue none text).map (' ' :: ·)
    else (decodeValue none text).map (ch :: ·)
  | some name, ch :: text =>
    if ch = ';' then do
      let ch ← reference name.reverse
      let value ← decodeValue none text
      some (ch :: value)
    else decodeValue (some (ch :: name)) text

/-- A quoted value, and what follows it. -/
def readValue : List Char → Option (List Char × List Char)
  | [] => none
  | quote :: text =>
    if quote = '"' ∨ quote = '\'' then
      match text.dropWhile (· != quote) with
      | [] => none
      | _ :: rest => (decodeValue none (text.takeWhile (· != quote))).map (·, rest)
    else none

def readAttribute (text : List Char) : Option (Attribute × List Char) := do
  let (name, text) ← readName text
  let text ← literal '=' (text.dropWhile isBlank)
  let (value, text) ← readValue (text.dropWhile isBlank)
  some ((name, value), text)

/-- The attributes up to the end of the tag, at most `fuel` of them, and that end. Each has white
space in front, and no two have the same name. -/
def readAttributes : ℕ → List Char → Option (List Attribute × List Char)
  | fuel, text =>
    let rest := text.dropWhile isBlank
    if rest.head? ∈ [none, some '/', some '>', some '?'] then some ([], rest)
    else if rest = text then none
    else match fuel with
      | 0 => none
      | fuel + 1 => do
        let (attr, text) ← readAttribute rest
        let (attrs, text) ← readAttributes fuel text
        if attr.1 ∈ attrs.map Prod.fst then none else some (attr :: attrs, text)

/-- What follows the declaration of the version and the encoding. -/
def readDeclaration (text : List Char) : Option (List Char) := do
  let (attrs, text) ← readAttributes text.length (text.drop 5)
  let text ← literal '?' text
  let text ← literal '>' text
  if attrs = [("version".toList, "1.0".toList)] ∨
      attrs = [("version".toList, "1.0".toList), ("encoding".toList, "UTF-8".toList)] then
    some text
  else none

def parse (text : List Char) : Option Element := do
  let body ← if "<?xml".toList.isPrefixOf text then readDeclaration text else some text
  let body ← literal '<' (body.dropWhile isBlank)
  let (tag, body) ← readName body
  let (attributes, body) ← readAttributes body.length body
  let body ← literal '/' body
  let body ← literal '>' body
  if text.all isChar ∧ body.all isBlank then some { tag, attributes } else none

/-- The characters that a value is not itself with, between double quotes. -/
def Plain (value : List Char) : Prop :=
  ∀ ch ∈ value, ch ∉ ['"', '&', '<', '\t', '\n', '\r']

instance (value : List Char) : Decidable (Plain value) :=
  inferInstanceAs (Decidable (∀ ch ∈ value, _))

variable {text rest value tail : List Char}

theorem plain_cons {ch : Char} :
    Plain (ch :: value) ↔ ch ∉ ['"', '&', '<', '\t', '\n', '\r'] ∧ Plain value :=
  List.forall_mem_cons

theorem Plain.quote_notMem (h : Plain value) : '"' ∉ value := by
  intro hmem
  exact h '"' hmem (by simp)

theorem decodeValue_length {name : Option (List Char)} (h : decodeValue name text = some value) :
    value.length ≤ text.length := by
  induction text generalizing name value with
  | nil =>
    cases name with
    | none => cases h; exact Nat.le_refl 0
    | some name => simp [decodeValue] at h
  | cons ch text ih =>
    rw [List.length_cons]
    cases name with
    | none =>
      rw [decodeValue] at h
      split_ifs at h
      · exact (ih h).trans (Nat.le_succ _)
      · exact (ih h).trans (Nat.le_succ _)
      · obtain ⟨value, hvalue, rfl⟩ := Option.map_eq_some_iff.mp h
        exact Nat.succ_le_succ (ih hvalue)
      · obtain ⟨value, hvalue, rfl⟩ := Option.map_eq_some_iff.mp h
        exact Nat.succ_le_succ (ih hvalue)
    | some name =>
      rw [decodeValue] at h
      split_ifs at h
      · cases href : reference name.reverse with
        | none => simp [href] at h
        | some ch =>
          cases hvalue : decodeValue none text with
          | none => simp [href, hvalue] at h
          | some value =>
            obtain rfl : ch :: value = _ := by simpa [href, hvalue] using h
            exact Nat.succ_le_succ (ih hvalue)
      · exact (ih h).trans (Nat.le_succ _)

/-- A text that is its own value has nothing to be replaced. -/
theorem plain_of_decodeValue (hquote : '"' ∉ value) (h : decodeValue none value = some value) :
    Plain value := by
  induction value with
  | nil => simp [Plain]
  | cons ch value ih =>
    rw [decodeValue] at h
    split_ifs at h with hlt hamp hline hblank
    · have hlength := decodeValue_length h
      rw [List.length_cons] at hlength
      omega
    · have hlength := decodeValue_length h
      rw [List.length_cons] at hlength
      omega
    · obtain ⟨value', hvalue, hsame⟩ := Option.map_eq_some_iff.mp h
      obtain ⟨rfl, rfl⟩ := List.cons.inj hsame
      exact plain_cons.mpr ⟨by decide, ih (fun hmem => hquote (List.mem_cons_of_mem _ hmem)) hvalue⟩
    · obtain ⟨value', hvalue, hsame⟩ := Option.map_eq_some_iff.mp h
      obtain ⟨-, rfl⟩ := List.cons.inj hsame
      refine plain_cons.mpr ⟨?_, ih (fun hmem => hquote (List.mem_cons_of_mem _ hmem)) hvalue⟩
      have hne : ch ≠ '"' := fun heq => hquote (by simp [heq])
      simp only [isBlank, Bool.or_eq_true, beq_iff_eq, not_or] at hblank
      simp [hne, hlt, hamp, hblank]

theorem decodeValue_plain (h : Plain value) : decodeValue none value = some value := by
  induction value with
  | nil => rfl
  | cons ch value ih =>
    obtain ⟨hch, hvalue⟩ := plain_cons.mp h
    simp only [List.mem_cons, List.not_mem_nil, or_false, not_or] at hch
    obtain ⟨-, hamp, hlt, htab, hnewline, hreturn⟩ := hch
    rw [decodeValue, if_neg hlt, if_neg hamp, if_neg fun hline => hreturn hline.1, ih hvalue]
    split_ifs with hblank
    · obtain rfl : ch = ' ' := by simpa [isBlank, htab, hnewline, hreturn] using hblank
      rfl
    · rfl

theorem takeWhile_quote (h : '"' ∉ value) :
    (value ++ '"' :: text).takeWhile (· != '"') = value ∧
      (value ++ '"' :: text).dropWhile (· != '"') = '"' :: text := by
  have hquote : ∀ ch ∈ value, (ch != '"') = true := by
    intro ch hch
    have hne : ch ≠ '"' := fun heq => h (heq ▸ hch)
    simpa using hne
  constructor
  · rw [List.takeWhile_append_of_pos hquote, List.takeWhile_cons, if_neg (by simp), List.append_nil]
  · rw [List.dropWhile_append_of_pos hquote, List.dropWhile_cons, if_neg (by simp)]

theorem readValue_plain (h : Plain value) :
    readValue ('"' :: (value ++ '"' :: text)) = some (value, text) := by
  obtain ⟨htake, hdrop⟩ := @takeWhile_quote text value h.quote_notMem
  rw [readValue, if_pos (.inl rfl), htake, hdrop, decodeValue_plain h]
  rfl

/-- What is pasted between double quotes is read back only if it is plain. -/
theorem plain_of_readValue (h : readValue ('"' :: (value ++ '"' :: text)) = some (value, rest)) :
    Plain value := by
  rw [readValue, if_pos (.inl rfl)] at h
  cases hrest : (value ++ '"' :: text).dropWhile (· != '"') with
  | nil => simp [hrest] at h
  | cons quote rest' =>
    simp only [hrest] at h
    obtain ⟨value', hvalue, hsame⟩ := Option.map_eq_some_iff.mp h
    obtain rfl : value' = value := congrArg Prod.fst hsame
    have hquote : '"' ∉ value' := by
      intro hmem
      have hlength := decodeValue_length hvalue
      rw [List.takeWhile_append] at hlength
      split_ifs at hlength with hall
      · have htake := (List.takeWhile_prefix (fun ch => ch != '"')).eq_of_length hall
        have hne := List.takeWhile_eq_self_iff.mp htake '"' hmem
        simp at hne
      · have hle := (List.takeWhile_prefix (l := value') (fun ch => ch != '"')).length_le
        omega
    rw [(takeWhile_quote hquote).1] at hvalue
    exact plain_of_decodeValue hquote hvalue

def IsName (name : List Char) : Prop :=
  name.head?.any isNameStart ∧ ∀ ch ∈ name, isNameChar ch

instance (name : List Char) : Decidable (IsName name) := inferInstanceAs (Decidable (_ ∧ _))

/-- Attributes in double quotes, and what follows them. -/
def pasteAttributes : List Attribute → List Char → List Char
  | [], tail => tail
  | (name, value) :: attrs, tail =>
    ' ' :: (name ++ '=' :: '"' :: (value ++ '"' :: pasteAttributes attrs tail))

variable {name : List Char} {attrs read : List Attribute} {fuel : ℕ}

theorem readName_append (h : IsName name) {ch : Char} (hch : isNameChar ch = false) :
    readName (name ++ ch :: rest) = some (name, ch :: rest) := by
  obtain ⟨hname, hall⟩ := h
  obtain ⟨start, hhead, hstart⟩ := (Option.any_eq_true _ _).mp hname
  have htake : (name ++ ch :: rest).takeWhile isNameChar = name := by
    rw [List.takeWhile_append_of_pos hall, List.takeWhile_cons, if_neg (by simp [hch]),
      List.append_nil]
  have hdrop : (name ++ ch :: rest).dropWhile isNameChar = ch :: rest := by
    rw [List.dropWhile_append_of_pos hall, List.dropWhile_cons, if_neg (by simp [hch])]
  rw [readName, htake, hdrop]
  cases name with
  | nil => simp at hhead
  | cons ch' name =>
    obtain rfl : ch' = start := by simpa using hhead
    simp [hstart]

theorem IsName.head_notMem (h : IsName name) :
    ∃ ch tail, name = ch :: tail ∧ isBlank ch = false ∧ ch ∉ ['/', '>', '?'] := by
  obtain ⟨ch, hhead, hstart⟩ := (Option.any_eq_true _ _).mp h.1
  cases name with
  | nil => simp at hhead
  | cons ch' name =>
    obtain rfl : ch' = ch := by simpa using hhead
    have hne : ∀ other, isNameStart other = false → ch' ≠ other := by
      intro other hother heq
      rw [heq, hother] at hstart
      simp at hstart
    refine ⟨ch', name, rfl, ?_, ?_⟩
    · simp [isBlank, hne ' ' (by decide), hne '\t' (by decide), hne '\n' (by decide),
        hne '\r' (by decide)]
    · simp [hne '/' (by decide), hne '>' (by decide), hne '?' (by decide)]

theorem readAttribute_pasted (hname : IsName name) :
    readAttribute (name ++ '=' :: '"' :: text) =
      (readValue ('"' :: text)).map fun read => ((name, read.1), read.2) := by
  have hequals : ('=' :: '"' :: text).dropWhile isBlank = '=' :: '"' :: text := rfl
  have hquote : ('"' :: text).dropWhile isBlank = '"' :: text := rfl
  have hread : readName (name ++ '=' :: '"' :: text) = some (name, '=' :: '"' :: text) :=
    readName_append hname (by decide)
  simp only [readAttribute, hread, Option.bind_eq_bind, Option.bind_some, hequals, literal_cons,
    hquote]
  cases readValue ('"' :: text) <;> rfl

/-- A pasted attribute starts behind white space, and the tag does not end there. -/
theorem pasteAttributes_cons (hname : IsName name) :
    ∃ rest, rest = name ++ '=' :: '"' :: (value ++ '"' :: pasteAttributes attrs tail) ∧
      pasteAttributes ((name, value) :: attrs) tail = ' ' :: rest ∧
      (' ' :: rest).dropWhile isBlank = rest ∧
      rest.head? ∉ [none, some '/', some '>', some '?'] ∧ rest ≠ ' ' :: rest := by
  obtain ⟨ch, name', hcons, hblank, hch⟩ := hname.head_notMem
  refine ⟨_, rfl, rfl, ?_, ?_, ?_⟩
  · rw [List.dropWhile_cons, if_pos (by rfl), hcons, List.cons_append, List.dropWhile_cons,
      if_neg (by simp [hblank])]
  · rw [hcons]
    simpa using hch
  · intro heq
    have hlength := congrArg List.length heq
    rw [List.length_cons] at hlength
    omega

theorem readAttributes_cons (hname : IsName name) (fuel : ℕ) :
    readAttributes fuel (pasteAttributes ((name, value) :: attrs) tail) =
      match fuel with
      | 0 => none
      | fuel + 1 =>
        (readValue ('"' :: (value ++ '"' :: pasteAttributes attrs tail))).bind fun read =>
          (readAttributes fuel read.2).bind fun more =>
            if name ∈ more.1.map Prod.fst then none
            else some ((name, read.1) :: more.1, more.2) := by
  obtain ⟨rest, hrest, htext, hdrop, hhead, hblank⟩ :=
    @pasteAttributes_cons value tail name attrs hname
  rw [htext, readAttributes.eq_def]
  simp only [hdrop, if_neg hhead, if_neg hblank]
  cases fuel with
  | zero => rfl
  | succ fuel =>
    show (readAttribute rest).bind _ = _
    rw [hrest, readAttribute_pasted hname]
    cases readValue ('"' :: (value ++ '"' :: pasteAttributes attrs tail)) with
    | none => rfl
    | some read =>
      cases hmore : readAttributes fuel read.2 with
      | none => simp [hmore]
      | some more => simp [hmore]

/-- What ends the attributes of a tag. -/
def EndsTag (tail : List Char) : Prop :=
  (tail.dropWhile isBlank).head? ∈ [none, some '/', some '>', some '?']

theorem readAttributes_nil (htail : EndsTag tail) :
    readAttributes fuel tail = some ([], tail.dropWhile isBlank) := by
  rw [readAttributes.eq_def]
  exact if_pos htail

theorem readAttributes_pasted (hnames : ∀ a ∈ attrs, IsName a.1)
    (hnodup : (attrs.map Prod.fst).Nodup) (hplain : ∀ a ∈ attrs, Plain a.2) (htail : EndsTag tail)
    (hfuel : attrs.length ≤ fuel) :
    readAttributes fuel (pasteAttributes attrs tail) = some (attrs, tail.dropWhile isBlank) := by
  induction attrs generalizing fuel with
  | nil => exact readAttributes_nil htail
  | cons a attrs ih =>
    obtain ⟨name, value⟩ := a
    rw [List.length_cons] at hfuel
    obtain ⟨fuel, rfl⟩ := Nat.exists_eq_add_of_le' (Nat.le_of_add_left_le hfuel)
    obtain ⟨hname, hnames⟩ := List.forall_mem_cons.mp hnames
    obtain ⟨hvalue, hplain⟩ := List.forall_mem_cons.mp hplain
    obtain ⟨hnew, hnodup⟩ := List.nodup_cons.mp hnodup
    have hmore := ih hnames hnodup hplain (by omega : attrs.length ≤ fuel)
    rw [readAttributes_cons hname]
    dsimp only
    rw [readValue_plain hvalue, Option.bind_some, hmore, Option.bind_some, if_neg hnew]

/-- Attributes that are read with the values that were pasted are plain. -/
theorem plain_of_readAttributes (hnames : ∀ a ∈ attrs, IsName a.1)
    (hnodup : (attrs.map Prod.fst).Nodup)
    (h : readAttributes fuel (pasteAttributes attrs tail) = some (read, rest))
    (hread : ∀ a ∈ attrs, Plain a.2 ∨ read.lookup a.1 = some a.2) : ∀ a ∈ attrs, Plain a.2 := by
  induction attrs generalizing fuel read rest with
  | nil => simp
  | cons a attrs ih =>
    obtain ⟨name, value⟩ := a
    obtain ⟨hname, hnames'⟩ := List.forall_mem_cons.mp hnames
    obtain ⟨hnew, hnodup'⟩ := List.nodup_cons.mp hnodup
    obtain ⟨hfirst, hread'⟩ := List.forall_mem_cons.mp hread
    rw [readAttributes_cons hname] at h
    cases fuel with
    | zero => simp at h
    | succ fuel =>
      obtain ⟨⟨value', text⟩, hvalue, h⟩ := Option.bind_eq_some_iff.mp h
      obtain ⟨⟨more, rest'⟩, hmore, h⟩ := Option.bind_eq_some_iff.mp h
      dsimp only at h hmore
      split_ifs at h
      obtain ⟨rfl, rfl⟩ := Prod.mk.inj (Option.some.inj h)
      have hplain : Plain value := by
        cases hfirst with
        | inl hplain => exact hplain
        | inr hlookup =>
          rw [List.lookup_cons_self] at hlookup
          obtain rfl := Option.some.inj hlookup
          exact plain_of_readValue hvalue
      rw [readValue_plain hplain] at hvalue
      obtain ⟨rfl, rfl⟩ := Prod.mk.inj (Option.some.inj hvalue)
      refine List.forall_mem_cons.mpr ⟨hplain, ih hnames' hnodup' hmore fun a ha => ?_⟩
      refine (hread' a ha).imp_right fun hother => ?_
      rwa [List.lookup_cons, beq_false_of_ne] at hother
      intro heq
      exact hnew (List.mem_map.mpr ⟨a, ha, heq⟩)

theorem length_pasteAttributes (attrs : List Attribute) (tail : List Char) :
    attrs.length ≤ (pasteAttributes attrs tail).length := by
  induction attrs with
  | nil => exact Nat.zero_le _
  | cons a attrs ih =>
    rw [pasteAttributes]
    simp only [List.length_cons, List.length_append]
    omega

theorem forall_mem_pasteAttributes {P : Char → Prop} (hblank : P ' ') (hequals : P '=')
    (hquote : P '"') (hattrs : ∀ a ∈ attrs, (∀ ch ∈ a.1, P ch) ∧ ∀ ch ∈ a.2, P ch)
    (htail : ∀ ch ∈ tail, P ch) : ∀ ch ∈ pasteAttributes attrs tail, P ch := by
  induction attrs with
  | nil => exact htail
  | cons a attrs ih =>
    obtain ⟨⟨hname, hvalue⟩, hattrs⟩ := List.forall_mem_cons.mp hattrs
    simp only [pasteAttributes, List.forall_mem_cons, List.forall_mem_append]
    exact ⟨hblank, hname, hequals, hquote, hvalue, hquote, ih hattrs⟩

/-- A declaration and an empty element, in lines of their own. -/
def pasteDocument (tag : List Char) (attrs : List Attribute) : List Char :=
  "<?xml".toList ++
    pasteAttributes [("version".toList, "1.0".toList), ("encoding".toList, "UTF-8".toList)]
      ('?' :: '>' :: '\n' :: '<' :: (tag ++ pasteAttributes attrs " />\n".toList))

variable {tag : List Char}

theorem isChar_pasteDocument {attrs : List Attribute} (htag : ∀ ch ∈ tag, isChar ch)
    (hattrs : ∀ a ∈ attrs, (∀ ch ∈ a.1, isChar ch) ∧ ∀ ch ∈ a.2, isChar ch) :
    (pasteDocument tag attrs).all isChar := by
  have hattrs : ∀ ch ∈ pasteAttributes attrs " />\n".toList, isChar ch :=
    forall_mem_pasteAttributes (P := fun ch => isChar ch) (by decide) (by decide) (by decide) hattrs
      (by decide)
  rw [List.all_eq_true, pasteDocument, List.forall_mem_append]
  refine ⟨by decide, ?_⟩
  refine forall_mem_pasteAttributes (P := fun ch => isChar ch) (by decide) (by decide) (by decide)
    (by decide) ?_
  simp only [List.forall_mem_cons, List.forall_mem_append]
  exact ⟨by decide, by decide, by decide, by decide, htag, hattrs⟩

theorem readDeclaration_pasteDocument (tag : List Char) (attrs : List Attribute) :
    readDeclaration (pasteDocument tag attrs) =
      some ('\n' :: '<' :: (tag ++ pasteAttributes attrs " />\n".toList)) := by
  have hfuel : 2 ≤ (pasteDocument tag attrs).length := by
    simp only [pasteDocument, pasteAttributes, List.length_append, List.length_cons]
    omega
  let declared : List Attribute :=
    [("version".toList, "1.0".toList), ("encoding".toList, "UTF-8".toList)]
  let tail := '?' :: '>' :: '\n' :: '<' :: (tag ++ pasteAttributes attrs " />\n".toList)
  have hends : EndsTag tail := by simp [EndsTag, isBlank, tail]
  have hread : readAttributes (pasteDocument tag attrs).length (pasteAttributes declared tail) =
      some (declared, tail) :=
    readAttributes_pasted (by decide) (by decide) (by decide) hends hfuel
  have hdrop : (pasteDocument tag attrs).drop 5 = pasteAttributes declared tail := rfl
  simp only [readDeclaration, hdrop, hread, Option.bind_eq_bind, Option.bind_some]
  simp only [tail, declared, literal_cons, Option.bind_some, or_true, if_true]

theorem pasteAttributes_blank (attrs : List Attribute) (tail : List Char) :
    ∃ text, pasteAttributes attrs (' ' :: tail) = ' ' :: text := by
  cases attrs with
  | nil => exact ⟨tail, rfl⟩
  | cons a attrs => exact ⟨_, rfl⟩

theorem parse_pasteDocument (htag : IsName tag) (attrs : List Attribute) :
    parse (pasteDocument tag attrs) =
      (readAttributes (pasteAttributes attrs " />\n".toList).length
          (pasteAttributes attrs " />\n".toList)).bind fun read =>
        ((literal '/' read.2).bind (literal '>')).bind fun body =>
          if (pasteDocument tag attrs).all isChar ∧ body.all isBlank then
            some { tag, attributes := read.1 }
          else none := by
  have hdeclared : "<?xml".toList.isPrefixOf (pasteDocument tag attrs) = true :=
    List.isPrefixOf_iff_prefix.mpr (List.prefix_append _ _)
  have hbody : ('\n' :: '<' :: (tag ++ pasteAttributes attrs " />\n".toList)).dropWhile isBlank =
      '<' :: (tag ++ pasteAttributes attrs " />\n".toList) := rfl
  obtain ⟨text, htext⟩ := pasteAttributes_blank attrs "/>\n".toList
  have hname : readName (tag ++ pasteAttributes attrs " />\n".toList) =
      some (tag, pasteAttributes attrs " />\n".toList) := by
    show readName (tag ++ pasteAttributes attrs (' ' :: "/>\n".toList)) = _
    rw [htext, readName_append htag (by decide), ← htext]
    rfl
  simp only [parse, hdeclared, if_true, readDeclaration_pasteDocument, Option.bind_eq_bind,
    Option.bind_some, hbody, literal_cons, hname, Option.bind_assoc]

theorem parse_plain (htag : IsName tag) {attrs : List Attribute} (hnames : ∀ a ∈ attrs, IsName a.1)
    (hnodup : (attrs.map Prod.fst).Nodup) (hplain : ∀ a ∈ attrs, Plain a.2)
    (hchars : (pasteDocument tag attrs).all isChar) :
    parse (pasteDocument tag attrs) = some { tag, attributes := attrs } := by
  have hends : EndsTag " />\n".toList := by
    unfold EndsTag
    decide
  have hread := readAttributes_pasted hnames hnodup hplain hends
    (length_pasteAttributes attrs " />\n".toList)
  rw [parse_pasteDocument htag, hread, hchars]
  rfl

/-- A document that has the attributes it was given was given plain ones. -/
theorem plain_of_parse (htag : IsName tag) {attrs : List Attribute}
    (hnames : ∀ a ∈ attrs, IsName a.1) (hnodup : (attrs.map Prod.fst).Nodup) {element : Element}
    (h : parse (pasteDocument tag attrs) = some element)
    (hread : ∀ a ∈ attrs, Plain a.2 ∨ element.attributes.lookup a.1 = some a.2) :
    ∀ a ∈ attrs, Plain a.2 := by
  rw [parse_pasteDocument htag, Option.bind_eq_some_iff] at h
  obtain ⟨⟨read, rest⟩, hattributes, h⟩ := h
  obtain ⟨body, -, h⟩ := Option.bind_eq_some_iff.mp h
  split_ifs at h
  obtain rfl := Option.some.inj h
  exact plain_of_readAttributes hnames hnodup hattributes hread

end Xml
