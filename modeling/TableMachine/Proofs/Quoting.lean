import Mathlib.Logic.Function.Defs
import TableMachine.Database.Token
import TableMachine.Export

/-! # Names between quotes

Names of tables and columns are any texts without a zero byte, and they are spliced into statements.
Here the statements that make and fill a table are read back: the names come out as they went in, between
the words and symbols that stand in every such statement. A text `ReadsAs` some parts if it does before
whatever does not go on with its last one; that is what joins the readings of a statement's pieces.
-/

namespace TableMachine.Statement

variable {name text more rest : Text} {b : UInt8} {parts others : List Token}

/-! ## Quotations -/

theorem replaceByte_cons (b : UInt8) (text : Text) :
    Text.replaceByte quote [quote, quote] (b :: text) =
      (if b = quote then [quote, quote] else [b]) ++ Text.replaceByte quote [quote, quote] text :=
  List.flatMap_cons

/-- The reader of a quotation is back in step at its end, whatever quotes the name holds. -/
theorem unquote?_append (whole : 0 ∉ name) (apart : rest.head? ≠ some quote) :
    unquote? quote (Text.replaceByte quote [quote, quote] name ++ quote :: rest) = some (name, rest) := by
  have delimits : quote ≠ 0 := by decide
  induction name with
  | nil => exact unquote?_closed delimits apart
  | cons b name ih =>
      rw [List.mem_cons, not_or] at whole
      rw [replaceByte_cons]
      split
      · rename_i same
        rw [List.append_assoc, List.cons_append, List.singleton_append, unquote?_doubled delimits,
          ih whole.2, same]
        rfl
      · rename_i inside
        rw [List.append_assoc, List.singleton_append, unquote?_inside (Ne.symm whole.1) inside,
          ih whole.2]
        rfl

theorem next?_quoted (whole : 0 ∉ name) (apart : rest.head? ≠ some quote) :
    next? (quoted name ++ rest) = some (.name name, rest) := by
  have split : quoted name ++ rest =
      quote :: (Text.replaceByte quote [quote, quote] name ++ quote :: rest) := by simp [quoted]
  rw [split, next?, if_pos rfl, unquote?_append whole apart]
  rfl

theorem quoted_injective : Function.Injective quoted := by
  intro first second same
  have inside : Text.replaceByte quote [quote, quote] first = Text.replaceByte quote [quote, quote] second :=
    List.append_cancel_right (List.cons.inj same).2
  clear same
  induction first generalizing second with
  | nil =>
      cases second with
      | nil => rfl
      | cons c second =>
          rw [replaceByte_cons] at inside
          split at inside <;> cases inside
  | cons b first ih =>
      cases second with
      | nil =>
          rw [replaceByte_cons] at inside
          split at inside <;> cases inside
      | cons c second =>
          rw [replaceByte_cons, replaceByte_cons] at inside
          split at inside <;> split at inside
          · rename_i left right
            rw [left, right, ih (List.append_cancel_left inside)]
          · rename_i left right
            exact absurd (List.cons.inj inside).1.symm right
          · rename_i left right
            exact absurd (List.cons.inj inside).1 left
          · obtain ⟨same, inside⟩ := List.cons.inj inside
            rw [same, ih inside]

/-! ## Parts of a statement -/

/-- What follows goes on with neither a quotation nor a word. -/
def Stops (rest : Text) : Prop := ∀ b ∈ rest.head?, b ≠ quote ∧ isWordByte b = false

/-- A text reads as some parts before anything that stops the last of them. -/
def ReadsAs (text : Text) (parts : List Token) : Prop :=
  ∀ rest, Stops rest → tokens? (text ++ rest) = (tokens? rest).map (parts ++ ·)

/-- Whether a byte is a part of its own. -/
def isSymbol (b : UInt8) : Bool :=
  b != 0 && !isBlank b && b != quote && b != apostrophe && !isWordByte b

theorem tokens?_of_next? {token : Token} (nonzero : b ≠ 0) (dense : isBlank b = false)
    (found : next? (b :: text) = some (token, rest)) :
    tokens? (b :: text) = (tokens? rest).map (token :: ·) := by
  rw [tokens?, if_neg nonzero, if_neg (by rw [dense]; exact Bool.false_ne_true)]
  split
  · rename_i missing
    cases missing.symm.trans found
  · rename_i other
    cases other.symm.trans found
    rfl

theorem readsAs_quoted (whole : 0 ∉ name) : ReadsAs (quoted name) [.name name] := by
  intro rest stops
  have apart : rest.head? ≠ some quote := fun head => (stops quote head).1 rfl
  exact tokens?_of_next? (by decide) (by decide) (next?_quoted whole apart)

/-- The bytes that `tokens?` and `next?` look for first are no word bytes. -/
theorem ne_of_isWordByte (word : isWordByte b = true) :
    b ≠ 0 ∧ isBlank b = false ∧ b ≠ quote ∧ b ≠ apostrophe := by
  have other : ∀ c, isWordByte c = false → b ≠ c := by
    rintro c no_word rfl
    exact absurd word (by rw [no_word]; exact Bool.false_ne_true)
  refine ⟨other 0 (by decide), ?_, other quote (by decide), other apostrophe (by decide)⟩
  have no_words : ([0x20, 0x09, 0x0A, 0x0C, 0x0D] : Text).all (!isWordByte ·) = true := by decide
  refine Bool.eq_false_iff.mpr fun blank => ?_
  have no_word := List.all_eq_true.mp no_words b (List.contains_iff_mem.mp blank)
  rw [word] at no_word
  cases no_word

theorem readsAs_word (nonempty : text ≠ []) (word : text.all isWordByte = true) :
    ReadsAs text [.word text] := by
  intro rest stops
  obtain ⟨b, more, rfl⟩ := List.exists_cons_of_ne_nil nonempty
  obtain ⟨first, later⟩ := List.forall_mem_cons.mp (List.all_eq_true.mp word)
  obtain ⟨nonzero, dense, no_quote, no_apostrophe⟩ := ne_of_isWordByte first
  have ends : rest.takeWhile isWordByte = [] ∧ rest.dropWhile isWordByte = rest := by
    cases rest with
    | nil => exact ⟨rfl, rfl⟩
    | cons c rest => simp [(stops c rfl).2]
  apply tokens?_of_next? nonzero dense
  show next? (b :: (more ++ rest)) = _
  rw [next?, if_neg no_quote, if_neg no_apostrophe, if_pos first, List.takeWhile_append_of_pos later,
    List.dropWhile_append_of_pos later, ends.1, ends.2, List.append_nil]

theorem readsAs_nil : ReadsAs [] [] := fun rest _ => by simp

namespace ReadsAs

theorem tokens?_eq (reads : ReadsAs text parts) : tokens? text = some parts := by
  have whole := reads [] fun b head => by cases head
  rw [List.append_nil, tokens?, Option.map_some, List.append_nil] at whole
  exact whole

theorem blank (reads : ReadsAs text parts) : ReadsAs (0x20 :: text) parts := by
  intro rest stops
  rw [List.cons_append, tokens?, if_neg (by decide), if_pos (by decide), reads rest stops]

theorem symbol (alone : isSymbol b = true) (reads : ReadsAs text parts) :
    ReadsAs (b :: text) (.symbol b :: parts) := by
  intro rest stops
  simp only [isSymbol, Bool.and_eq_true, bne_iff_ne, ne_eq, Bool.not_eq_true'] at alone
  obtain ⟨⟨⟨⟨nonzero, dense⟩, no_quote⟩, no_apostrophe⟩, no_word⟩ := alone
  have found : next? (b :: (text ++ rest)) = some (.symbol b, text ++ rest) := by
    rw [next?, if_neg no_quote, if_neg no_apostrophe, if_neg (by rw [no_word]; exact Bool.false_ne_true)]
  rw [List.cons_append, tokens?_of_next? nonzero dense found, reads rest stops, Option.map_map]
  rfl

/-- Readings are joined where the second text begins with a byte that stops the first. -/
theorem append_cons (first : ReadsAs text parts) (second : ReadsAs (b :: more) others)
    (stops : b ≠ quote ∧ isWordByte b = false) : ReadsAs (text ++ b :: more) (parts ++ others) := by
  intro rest ends
  have apart : Stops ((b :: more) ++ rest) := fun c head => by
    cases head
    exact stops
  rw [List.append_assoc, first _ apart, second rest ends, Option.map_map]
  congr 1
  funext later
  exact (List.append_assoc parts others later).symm

theorem spaced (first : ReadsAs text parts) (second : ReadsAs more others) :
    ReadsAs (text ++ 0x20 :: more) (parts ++ others) :=
  first.append_cons second.blank (by decide)

end ReadsAs

/-! ## Whole statements -/

/-- The parts of items between parentheses. -/
def listed (items : List (List Token)) : List Token :=
  .symbol 0x28 :: List.intercalate [.symbol 0x2C] items ++ [.symbol 0x29]

theorem readsAs_joinWith {α : Type} {write : α → Text} {read : α → List Token} {items : List α}
    (reads : ∀ x ∈ items, ReadsAs (write x) (read x)) :
    ReadsAs (Text.joinWith ", " (items.map write)) (List.intercalate [.symbol 0x2C] (items.map read)) := by
  unfold Text.joinWith
  induction items with
  | nil => exact readsAs_nil
  | cons x items ih =>
      obtain ⟨first, later⟩ := List.forall_mem_cons.mp reads
      cases items with
      | nil => simpa using first
      | cons y items =>
          have comma : Text.ofString ", " = [0x2C, 0x20] := by decide
          rw [comma] at ih ⊢
          rw [List.map_cons, List.map_cons, List.map_cons, List.map_cons, List.intercalate_cons_cons,
            List.intercalate_cons_cons, List.append_assoc, List.append_assoc]
          exact first.append_cons ((ih later).blank.symbol (by decide)) (by decide)

theorem readsAs_grouped {α : Type} {write : α → Text} {read : α → List Token} {items : List α}
    (reads : ∀ x ∈ items, ReadsAs (write x) (read x)) :
    ReadsAs (grouped (items.map write)) (listed (items.map read)) := by
  have written : grouped (items.map write) =
      0x28 :: (Text.joinWith ", " (items.map write) ++ [0x29]) := by
    simp only [grouped, Text.concat, List.flatten_cons, List.flatten_nil, List.append_nil]
    rfl
  rw [written]
  exact ((readsAs_joinWith reads).append_cons (readsAs_nil.symbol (by decide)) (by decide)).symbol
    (by decide)

theorem readsAs_typeName (a : Affinity) : ReadsAs a.typeName [.word a.typeName] := by
  cases a <;> exact readsAs_word (by decide) (by decide)

theorem readsAs_createTable {columns : List (Text × Affinity)} (whole : 0 ∉ name)
    (wholes : ∀ c ∈ columns, 0 ∉ c.1) :
    ReadsAs (createTable name columns)
      (.word "CREATE" :: .word "TABLE" :: .name name ::
        listed (columns.map fun c => [.name c.1, .word c.2.typeName])) := by
  have create : ReadsAs "CREATE" [.word "CREATE"] := readsAs_word (by decide) (by decide)
  have table : ReadsAs "TABLE" [.word "TABLE"] := readsAs_word (by decide) (by decide)
  have typed : ∀ c ∈ columns, ReadsAs (quoted c.1 ++ 0x20 :: c.2.typeName)
      [.name c.1, .word c.2.typeName] := fun c member =>
    (readsAs_quoted (wholes c member)).spaced (readsAs_typeName c.2)
  have written : createTable name columns =
      Text.ofString "CREATE" ++ 0x20 :: (Text.ofString "TABLE" ++ 0x20 :: (quoted name ++
        0x20 :: grouped (columns.map fun c => quoted c.1 ++ 0x20 :: c.2.typeName))) := by
    simp only [createTable, Text.concat, List.flatten_cons, List.flatten_nil, List.append_nil]
    rfl
  rw [written]
  exact create.spaced (table.spaced ((readsAs_quoted whole).spaced (readsAs_grouped typed)))

theorem readsAs_prepared {columns : List Text} (whole : 0 ∉ name) (wholes : ∀ c ∈ columns, 0 ∉ c) :
    ReadsAs (prepared name columns)
      (.word "INSERT" :: .word "INTO" :: .name name :: listed (columns.map fun c => [.name c]) ++
        .word "VALUES" :: listed (columns.map fun _ => [.symbol 0x3F])) := by
  have insert_ : ReadsAs "INSERT" [.word "INSERT"] := readsAs_word (by decide) (by decide)
  have into : ReadsAs "INTO" [.word "INTO"] := readsAs_word (by decide) (by decide)
  have values : ReadsAs "VALUES" [.word "VALUES"] := readsAs_word (by decide) (by decide)
  have named : ∀ c ∈ columns, ReadsAs (quoted c) [.name c] := fun c member =>
    readsAs_quoted (wholes c member)
  have marked : ∀ c ∈ columns, ReadsAs mark [.symbol 0x3F] := fun _ _ =>
    readsAs_nil.symbol (by decide)
  have written : prepared name columns = Text.ofString "INSERT" ++ 0x20 :: (Text.ofString "INTO" ++
      0x20 :: (quoted name ++ 0x20 :: (grouped (columns.map quoted) ++ 0x20 :: (Text.ofString "VALUES" ++
        0x20 :: grouped (columns.map fun _ => mark))))) := by
    simp only [prepared, insert, Text.concat, List.flatten_cons, List.flatten_nil, List.append_nil]
    rfl
  rw [written]
  exact insert_.spaced (into.spaced ((readsAs_quoted whole).spaced ((readsAs_grouped named).spaced
    (values.spaced (readsAs_grouped marked)))))

end TableMachine.Statement

namespace TableMachine.Export

open Statement

/-- The statements that make and fill the table of a variable name the table and its headers, in order,
and nothing else, whatever bytes but zero these are made of. -/
theorem statements_name_headers {name : Text} {t : Table} (whole : 0 ∉ name)
    (wholes : ∀ header ∈ t.headers, 0 ∉ header) :
    tokens? (createTable name (columns t)) =
      some (.word "CREATE" :: .word "TABLE" :: .name name :: listed (t.headers.map fun header =>
        [.name header, .word (columnAffinity ((t.column? header).getD [])).typeName])) ∧
    tokens? (prepared name t.headers) =
      some (.word "INSERT" :: .word "INTO" :: .name name ::
        listed (t.headers.map fun header => [.name header]) ++
        .word "VALUES" :: listed (t.headers.map fun _ => [.symbol 0x3F])) ∧
    Function.Injective quoted ∧
    ∀ rest, rest.head? ≠ some quote → next? (quoted name ++ rest) = some (.name name, rest) := by
  have wholeColumns : ∀ c ∈ columns t, 0 ∉ c.1 := by
    intro c member
    obtain ⟨header, listed, rfl⟩ := List.mem_map.mp member
    exact wholes header listed
  refine ⟨?_, (readsAs_prepared whole wholes).tokens?_eq, quoted_injective, fun rest => next?_quoted whole⟩
  rw [(readsAs_createTable whole wholeColumns).tokens?_eq, columns, List.map_map]
  rfl

/-- A table and headers whose names try to end their quotations. -/
theorem statements_name_headers_of_hostile :
    tokens? (createTable "a\"); DROP TABLE b; --" (columns (.ofHeaders ["\"", "\", ("]))) =
      some [.word "CREATE", .word "TABLE", .name "a\"); DROP TABLE b; --", .symbol 0x28,
        .name "\"", .word "TEXT", .symbol 0x2C, .name "\", (", .word "TEXT", .symbol 0x29] ∧
    tokens? (prepared "a\"); DROP TABLE b; --" ["\"", "\", ("]) =
      some [.word "INSERT", .word "INTO", .name "a\"); DROP TABLE b; --", .symbol 0x28,
        .name "\"", .symbol 0x2C, .name "\", (", .symbol 0x29, .word "VALUES", .symbol 0x28,
        .symbol 0x3F, .symbol 0x2C, .symbol 0x3F, .symbol 0x29] := by
  have whole : 0 ∉ Text.ofString "a\"); DROP TABLE b; --" := by decide
  have wholes : ∀ header ∈ (Table.ofHeaders ["\"", "\", ("]).headers, 0 ∉ header := by decide
  obtain ⟨created, inserted, _, _⟩ := statements_name_headers whole wholes
  exact ⟨created.trans (by decide), inserted.trans (by decide)⟩

end TableMachine.Export
