import EventScript.Json.Basic
import EventScript.Proofs.Text.Delimited

/-!
# Reading documents back

An indented document is unambiguous. Its first character tells what sort of document it is; a
string ends at the first quotation mark that no backslash is before, a number before the first
character that is no digit, and the items of an array and the fields of an object are separated
by commas and ended by a line feed. So no two documents have the same text.
-/

set_option autoImplicit false

namespace EventScript.Json

/-- What holds of a document if it holds of all that the document is made of holds of every
document. -/
@[elab_as_elim]
theorem induction {motive : Json → Prop} (null : motive .null)
    (number : ∀ value, motive (.number value)) (string : ∀ value, motive (.string value))
    (array : ∀ items, (∀ item ∈ items, motive item) → motive (.array items))
    (object : ∀ fields, (∀ field ∈ fields, motive field.2) → motive (.object fields)) :
    ∀ document, motive document
  | .null => null
  | .number value => number value
  | .string value => string value
  | .array items => array items fun item _ => induction null number string array object item
  | .object fields =>
    object fields fun field _ => induction null number string array object field.2
termination_by document => document
decreasing_by
  · next h =>
    have hitem := List.sizeOf_lt_of_mem h
    simp only [Json.array.sizeOf_spec]
    omega
  · next h =>
    have hfield := List.sizeOf_lt_of_mem h
    obtain ⟨name, value⟩ := field
    simp only [Json.object.sizeOf_spec, Prod.mk.sizeOf_spec] at hfield ⊢
    omega

/-! ## Strings -/

/-- The characters that are not written as themselves: the quotation mark, the backslash and the
first 32. -/
def specials : List Char := '"' :: '\\' :: (List.range 0x20).map Char.ofNat

/-- A character is written as itself, which is neither a quotation mark nor a backslash, or it is
one of the special ones. -/
theorem escaped_cases (c : Char) :
    (escaped c = [c] ∧ c ≠ '"' ∧ c ≠ '\\') ∨ c ∈ specials := by
  by_cases quote : c = '"'
  · rw [quote]
    exact .inr List.mem_cons_self
  by_cases backslash : c = '\\'
  · rw [backslash]
    exact .inr (List.mem_cons_of_mem _ List.mem_cons_self)
  by_cases printable : 0x20 ≤ c.toNat
  · exact .inl ⟨escaped_of_plain quote backslash printable, quote, backslash⟩
  · have hmem : Char.ofNat c.toNat ∈ (List.range 0x20).map Char.ofNat :=
      List.mem_map_of_mem (List.mem_range.mpr (Nat.not_le.mp printable))
    rw [Char.ofNat_toNat] at hmem
    exact .inr (List.mem_cons_of_mem _ (List.mem_cons_of_mem _ hmem))

/-- What is written for a special character begins with a backslash. -/
theorem exists_escaped_eq_cons {c : Char} (h : c ∈ specials) :
    ∃ code, escaped c = '\\' :: code := by
  have every : (specials.all fun c => (escaped c).head? == some '\\') = true := by decide
  exact List.head?_eq_some_iff.mp (beq_iff_eq.mp (List.all_eq_true.mp every c h))

/-- None of the special characters begins as another one does. -/
theorem eq_of_prefix_escaped {c d : Char} (hc : c ∈ specials) (hd : d ∈ specials)
    (h : escaped c <+: escaped d) : c = d := by
  have every : (specials.all fun c => specials.all fun d =>
      decide (escaped c <+: escaped d → c = d)) = true := by decide +kernel
  exact of_decide_eq_true (List.all_eq_true.mp (List.all_eq_true.mp every c hc) d hd) h

/-- A character is read back from how it is written, with whatever follows it. -/
theorem escaped_append_inj {c d : Char} {rest rest' : List Char}
    (h : escaped c ++ rest = escaped d ++ rest') : c = d ∧ rest = rest' := by
  have hsame : c = d := by
    rcases escaped_cases c with ⟨hc, -, hplain⟩ | hc
    · rcases escaped_cases d with ⟨hd, -, -⟩ | hd
      · rw [hc, hd] at h
        exact (List.cons.inj h).1
      · obtain ⟨code, hcode⟩ := exists_escaped_eq_cons hd
        rw [hc, hcode] at h
        exact absurd (List.cons.inj h).1 hplain
    · rcases escaped_cases d with ⟨hd, -, hplain⟩ | hd
      · obtain ⟨code, hcode⟩ := exists_escaped_eq_cons hc
        rw [hcode, hd] at h
        exact absurd (List.cons.inj h).1.symm hplain
      -- escapes differ in length, so one of the two is only known to begin as the other
      · have hprefix := List.prefix_append (escaped d) rest'
        rw [← h] at hprefix
        rcases List.prefix_or_prefix_of_prefix (List.prefix_append (escaped c) rest) hprefix with
          hshort | hshort
        · exact eq_of_prefix_escaped hc hd hshort
        · exact (eq_of_prefix_escaped hd hc hshort).symm
  subst hsame
  exact ⟨rfl, List.append_cancel_left h⟩

/-- A quotation mark inside a string does not end it. -/
theorem quote_cons_ne_escaped_append (c : Char) (rest rest' : List Char) :
    '"' :: rest ≠ escaped c ++ rest' := by
  intro h
  rcases escaped_cases c with ⟨hc, hplain, -⟩ | hc
  · rw [hc] at h
    exact hplain (List.cons.inj h).1.symm
  · obtain ⟨code, hcode⟩ := exists_escaped_eq_cons hc
    rw [hcode] at h
    cases (List.cons.inj h).1

/-- A text is read back from how it is written in front of a quotation mark; the induction is on its
characters. -/
theorem flatMap_escaped_append_inj {cs ds rest rest' : List Char}
    (h : cs.flatMap escaped ++ '"' :: rest = ds.flatMap escaped ++ '"' :: rest') :
    cs = ds ∧ rest = rest' := by
  induction cs generalizing ds with
  | nil =>
    cases ds with
    | nil => exact ⟨rfl, (List.cons.inj h).2⟩
    | cons d ds =>
      rw [List.flatMap_nil, List.nil_append, List.flatMap_cons, List.append_assoc] at h
      exact absurd h (quote_cons_ne_escaped_append d _ _)
  | cons c cs ih =>
    cases ds with
    | nil =>
      rw [List.flatMap_nil, List.nil_append, List.flatMap_cons, List.append_assoc] at h
      exact absurd h.symm (quote_cons_ne_escaped_append c _ _)
    | cons d ds =>
      rw [List.flatMap_cons, List.flatMap_cons, List.append_assoc, List.append_assoc] at h
      obtain ⟨rfl, hbehind⟩ := escaped_append_inj h
      obtain ⟨rfl, hrests⟩ := ih hbehind
      exact ⟨rfl, hrests⟩

/-- A string is its escaped characters between quotation marks. -/
theorem toList_quoted (text : String) :
    (quoted text).toList = '"' :: (text.toList.flatMap escaped ++ ['"']) := by
  simp [quoted]

/-- A string is cut behind the quotation mark that ends it. -/
theorem quoted_append_inj {text text' : String} {rest rest' : List Char}
    (h : (quoted text).toList ++ rest = (quoted text').toList ++ rest') :
    text = text' ∧ rest = rest' := by
  simp only [toList_quoted, List.cons_append, List.append_assoc, List.nil_append] at h
  obtain ⟨htext, hrests⟩ := flatMap_escaped_append_inj (List.cons.inj h).2
  exact ⟨String.toList_inj.mp htext, hrests⟩

/-! ## Lists of what is read back -/

section Block

variable {α : Type} {write : α → List Char} {items items' : List α} {line rest rest' : List Char}
  {opening closing : Char} {depth : Nat}

/-- `ReadsBack write a`: in front of a text that does not go on with a digit, `a` is read back
from what `write` makes of it. -/
def ReadsBack (write : α → List Char) (a : α) : Prop :=
  ∀ {b : α} {rest rest' : List Char}, Text.Ends Char.isDigit rest → Text.Ends Char.isDigit rest' →
    write a ++ rest = write b ++ rest' → a = b ∧ rest = rest'

/-- Items with a comma and the beginning of a line before each. -/
def others (line : List Char) (write : α → List Char) (items : List α) : List Char :=
  items.flatMap fun item => ',' :: (line ++ write item)

/-- Each item but the first is a comma, an indentation and the item. -/
theorem others_cons_append (item : α) (items : List α) (rest : List Char) :
    others line write (item :: items) ++ rest =
      ',' :: (line ++ (write item ++ (others line write items ++ rest))) := by
  simp [others]

/-- Behind an item stands a comma or a line feed, and no digit. -/
theorem ends_others_append (items : List α) (rest : List Char) :
    Text.Ends Char.isDigit (others line write items ++ '\n' :: rest) := by
  cases items with
  | nil => exact .cons (by decide) rest
  | cons item items =>
    rw [others_cons_append]
    exact .cons (by decide) _

/-- Items that are read back are so in front of the end of their last line. -/
theorem others_append_inj (hitems : ∀ item ∈ items, ReadsBack write item)
    (h : others line write items ++ '\n' :: rest = others line write items' ++ '\n' :: rest') :
    items = items' ∧ rest = rest' := by
  induction items generalizing items' with
  | nil =>
    cases items' with
    | nil => exact ⟨rfl, (List.cons.inj h).2⟩
    | cons item' items' =>
      rw [others_cons_append] at h
      cases (List.cons.inj h).1
  | cons item items ih =>
    cases items' with
    | nil =>
      rw [others_cons_append] at h
      cases (List.cons.inj h).1
    | cons item' items' =>
      obtain ⟨hitem, hothers⟩ := List.forall_mem_cons.mp hitems
      rw [others_cons_append, others_cons_append] at h
      have hbehind := List.append_cancel_left (List.cons.inj h).2
      obtain ⟨rfl, hmore⟩ := hitem (ends_others_append _ _) (ends_others_append _ _) hbehind
      obtain ⟨rfl, hrests⟩ := ih hothers hmore
      exact ⟨rfl, hrests⟩

/-- Items between brackets, each on a line of its own. -/
def block (opening closing : Char) (depth : Nat) (write : α → List Char) : List α → List Char
  | [] => [opening, closing]
  | item :: items =>
    opening :: ((newLine (depth + 1)).toList ++ (write item ++
      (others (newLine (depth + 1)).toList write items ++ ((newLine depth).toList ++ [closing]))))

/-- An indentation begins with a line feed. -/
theorem exists_newLine_eq_cons (depth : Nat) : ∃ blanks, (newLine depth).toList = '\n' :: blanks :=
  ⟨_, String.toList_ofList⟩

/-- The items of an array or an object are read back from it, if each of them is. -/
theorem block_append_inj (hclosing : closing ≠ '\n') (hitems : ∀ item ∈ items, ReadsBack write item)
    (h : block opening closing depth write items ++ rest =
      block opening closing depth write items' ++ rest') : items = items' ∧ rest = rest' := by
  obtain ⟨blanks, hline⟩ := exists_newLine_eq_cons depth
  obtain ⟨deeper, hdeeper⟩ := exists_newLine_eq_cons (depth + 1)
  cases items with
  | nil =>
    cases items' with
    | nil => exact ⟨rfl, List.append_cancel_left h⟩
    | cons item' items' =>
      rw [block, block, hdeeper] at h
      exact absurd (List.cons.inj (List.cons.inj h).2).1 hclosing
  | cons item items =>
    cases items' with
    | nil =>
      rw [block, block, hdeeper] at h
      exact absurd (List.cons.inj (List.cons.inj h).2).1.symm hclosing
    | cons item' items' =>
      obtain ⟨hitem, hothers⟩ := List.forall_mem_cons.mp hitems
      simp only [block, hline, List.cons_append, List.append_assoc, List.cons.injEq, true_and,
        List.append_cancel_left_eq] at h
      -- a number may go on up to the comma or the line feed behind it, so these have to be in sight
      obtain ⟨rfl, hmore⟩ := hitem (ends_others_append _ _) (ends_others_append _ _) h
      obtain ⟨rfl, hbehind⟩ := others_append_inj hothers hmore
      have hbracket := List.append_cancel_left hbehind
      exact ⟨rfl, (List.cons.inj hbracket).2⟩

end Block

/-! ## Documents -/

/-- The text of a field of an object. -/
def fieldChars (depth : Nat) (field : String × Json) : List Char :=
  (quoted field.1).toList ++ (": ".toList ++ (prettyAt depth field.2).toList)

/-- The items of an array but the first are written as items of any block. -/
theorem toList_prettyItems (depth : Nat) (items : List Json) : (prettyItems depth items).toList =
    others (newLine depth).toList (fun item => (prettyAt depth item).toList) items := by
  induction items with
  | nil => rfl
  | cons item items ih => simp [prettyItems, others, ih]

/-- The fields of an object but the first are written as items of any block. -/
theorem toList_prettyFields (depth : Nat) (fields : List (String × Json)) :
    (prettyFields depth fields).toList =
      others (newLine depth).toList (fieldChars depth) fields := by
  induction fields with
  | nil => rfl
  | cons field fields ih => simp [prettyFields, others, fieldChars, ih]

/-- An array is a block of its items in brackets. -/
theorem toList_prettyAt_array (depth : Nat) (items : List Json) :
    (prettyAt depth (.array items)).toList =
      block '[' ']' depth (fun item => (prettyAt (depth + 1) item).toList) items := by
  cases items with
  | nil => simp [prettyAt, block]
  | cons item items => simp [prettyAt, block, toList_prettyItems]

/-- An object is a block of its fields in braces. -/
theorem toList_prettyAt_object (depth : Nat) (fields : List (String × Json)) :
    (prettyAt depth (.object fields)).toList =
      block '\x7b' '\x7d' depth (fieldChars (depth + 1)) fields := by
  cases fields with
  | nil => simp [prettyAt, block]
  | cons field fields => simp [prettyAt, block, toList_prettyFields, fieldChars]

/-- What a document is. -/
inductive Kind where
  | null
  | number
  | string
  | array
  | object

/-- What a document is. -/
def kind : Json → Kind
  | .null => .null
  | .number _ => .number
  | .string _ => .string
  | .array _ => .array
  | .object _ => .object

/-- What a document is whose text begins with a character. -/
def Kind.ofFirst (c : Char) : Kind :=
  if c.isDigit || c == '-' then .number
  else if c = 'n' then .null
  else if c = '"' then .string
  else if c = '[' then .array
  else .object

/-- The first character of a number tells that it is one. -/
theorem exists_ofInt_eq_cons (n : Int) :
    ∃ c cs, (Numeral.ofInt n).toList = c :: cs ∧ Kind.ofFirst c = .number := by
  rw [Numeral.toList_ofInt]
  split
  · exact ⟨'-', _, rfl, rfl⟩
  · obtain ⟨c, cs, hcs, hdigit⟩ := Numeral.exists_toDigits_eq_cons n.natAbs
    exact ⟨c, cs, hcs, by rw [Kind.ofFirst, hdigit, Bool.true_or, if_pos rfl]⟩

/-- The first character of a block is its opening bracket. -/
theorem exists_block_eq_cons {α : Type} (opening closing : Char) (depth : Nat)
    (write : α → List Char) (items : List α) :
    ∃ cs, block opening closing depth write items = opening :: cs := by
  cases items with
  | nil => exact ⟨_, rfl⟩
  | cons item items => exact ⟨_, rfl⟩

/-- The first character of a document tells its kind. -/
theorem exists_prettyAt_eq_cons (depth : Nat) (document : Json) :
    ∃ c cs, (prettyAt depth document).toList = c :: cs ∧ Kind.ofFirst c = document.kind := by
  cases document with
  | null => exact ⟨'n', "ull".toList, by simp [prettyAt], rfl⟩
  | number value =>
    rw [prettyAt]
    exact exists_ofInt_eq_cons value
  | string value => exact ⟨'"', _, by rw [prettyAt, toList_quoted], rfl⟩
  | array items =>
    obtain ⟨cs, hcs⟩ := exists_block_eq_cons '[' ']' depth
      (fun item => (prettyAt (depth + 1) item).toList) items
    exact ⟨'[', cs, by rw [toList_prettyAt_array, hcs], rfl⟩
  | object fields =>
    obtain ⟨cs, hcs⟩ := exists_block_eq_cons '\x7b' '\x7d' depth (fieldChars (depth + 1)) fields
    exact ⟨'\x7b', cs, by rw [toList_prettyAt_object, hcs], rfl⟩

/-- The first character tells what a document is. -/
theorem kind_eq_of_prettyAt_append_eq {depth : Nat} {document other : Json}
    {rest rest' : List Char}
    (h : (prettyAt depth document).toList ++ rest = (prettyAt depth other).toList ++ rest') :
    document.kind = other.kind := by
  obtain ⟨c, cs, hcs, hkind⟩ := exists_prettyAt_eq_cons depth document
  obtain ⟨c', cs', hcs', hkind'⟩ := exists_prettyAt_eq_cons depth other
  rw [hcs, hcs'] at h
  rw [← hkind, ← hkind', (List.cons.inj h).1]

/-- A field is read back if its value is. -/
theorem readsBack_fieldChars {depth : Nat} {field : String × Json}
    (h : ReadsBack (fun value => (prettyAt depth value).toList) field.2) :
    ReadsBack (fieldChars depth) field := by
  intro other rest rest' hrest hrest' hsame
  simp only [fieldChars, List.append_assoc] at hsame
  obtain ⟨hname, hbehind⟩ := quoted_append_inj hsame
  have hvalues := List.append_cancel_left hbehind
  obtain ⟨hvalue, hrests⟩ := h hrest hrest' hvalues
  exact ⟨Prod.ext hname hvalue, hrests⟩

/-- In front of a text that does not go on with a digit, a document is read back. -/
theorem readsBack_prettyAt (document : Json) :
    ∀ depth, ReadsBack (fun value => (prettyAt depth value).toList) document := by
  -- items stand deeper than what holds them, so the depth is bound behind the document
  induction document using Json.induction with
  | null =>
    intro depth other rest rest' _ _ h
    cases other with
    | null => exact ⟨rfl, List.append_cancel_left h⟩
    | _ => cases kind_eq_of_prettyAt_append_eq h
  | number value =>
    intro depth other rest rest' hrest hrest' h
    cases other with
    | number value' =>
      simp only [prettyAt] at h
      obtain ⟨rfl, hrests⟩ := Numeral.ofInt_append_inj hrest hrest' h
      exact ⟨rfl, hrests⟩
    | _ => cases kind_eq_of_prettyAt_append_eq h
  | string value =>
    intro depth other rest rest' _ _ h
    cases other with
    | string value' =>
      simp only [prettyAt] at h
      obtain ⟨rfl, hrests⟩ := quoted_append_inj h
      exact ⟨rfl, hrests⟩
    | _ => cases kind_eq_of_prettyAt_append_eq h
  | array items ih =>
    intro depth other rest rest' _ _ h
    cases other with
    | array items' =>
      simp only [toList_prettyAt_array] at h
      obtain ⟨rfl, hrests⟩ := block_append_inj (by decide) (fun item hitem => ih item hitem _) h
      exact ⟨rfl, hrests⟩
    | _ => cases kind_eq_of_prettyAt_append_eq h
  | object fields ih =>
    intro depth other rest rest' _ _ h
    cases other with
    | object fields' =>
      simp only [toList_prettyAt_object] at h
      obtain ⟨rfl, hrests⟩ := block_append_inj (by decide)
        (fun field hfield => readsBack_fieldChars (ih field hfield _)) h
      exact ⟨rfl, hrests⟩
    | _ => cases kind_eq_of_prettyAt_append_eq h

/-- No two documents have the same indented text. -/
theorem pretty_injective : Function.Injective pretty := by
  intro document other h
  have hchars := congrArg (fun text => text.toList ++ []) h
  exact (readsBack_prettyAt document 0 (.nil _) (.nil _) hchars).1

end EventScript.Json
