import TableMachine.Proofs.Recoding

/-! # Which stored programs can be loaded

Storing looks at nothing but whether there is a main chunk. Loading refuses a text that is not well-formed and a
collection with more entries than the reader accepts. So not every artifact that is written can be read: it can be
when all texts and counts of the program are such (`Legible`), and otherwise it is malformed. That nothing else
stands in the way is the work of the earlier modules; that these two things do is shown here. The reader may refuse
what was written, but if it takes it, it takes the item that was written. Then every count was small enough, and
every text that the decoder came to was well-formed.
-/

namespace TableMachine

/-! ## The parts of a program -/

/-- What in a program has a size or a form to keep to. -/
inductive Part where
  | word (i : Int)
  | text (t : Text)
  | code (length : Nat)
  /-- A collection, of which only the number of entries counts. -/
  | entries (count : Nat)

/-- The part has a size that there is: words have 64 bits, and lengths are such words. -/
def Part.Fits : Part → Prop
  | word i => IsWord i
  | text t => t.length ≤ Wire.maxLength
  | code n | entries n => n ≤ Wire.maxLength

/-- The part is one that loading accepts. -/
def Part.Legible : Part → Prop
  | text t => t.isUtf8 = true
  | entries n => n ≤ Wire.maxEntries
  | word _ | code _ => True

instance : DecidablePred Part.Fits
  | .word i => inferInstanceAs (Decidable (IsWord i))
  | .text t => inferInstanceAs (Decidable (t.length ≤ Wire.maxLength))
  | .code n | .entries n => inferInstanceAs (Decidable (n ≤ Wire.maxLength))

instance : DecidablePred Part.Legible
  | .text t => inferInstanceAs (Decidable (t.isUtf8 = true))
  | .entries n => inferInstanceAs (Decidable (n ≤ Wire.maxEntries))
  | .word _ | .code _ => inferInstanceAs (Decidable True)

/-- The parts of a collection: its size, and those of its entries. -/
def Part.collection {α : Type} (parts : α → List Part) (xs : List α) : List Part :=
  .entries xs.length :: xs.flatMap parts

@[simp] theorem Part.forall_collection {α : Type} {parts : α → List Part} {xs : List α} {property : Part → Prop} :
    (∀ part ∈ collection parts xs, property part) ↔
      property (.entries xs.length) ∧ ∀ x ∈ xs, ∀ part ∈ parts x, property part := by
  simp only [collection, List.forall_mem_cons, List.mem_flatMap]
  refine and_congr_right fun _ => ⟨?_, ?_⟩
  · intro all x member part inside
    exact all part ⟨x, member, inside⟩
  · rintro all part ⟨x, member, inside⟩
    exact all x member part inside

def Part.optional {α : Type} (parts : α → List Part) : Option α → List Part
  | none => []
  | some x => parts x

theorem Part.forall_optional {α : Type} {parts : α → List Part} {x : Option α} {property : Part → Prop} :
    (∀ part ∈ optional parts x, property part) ↔ ∀ y, x = some y → ∀ part ∈ parts y, property part := by
  cases x with
  | none => simp [optional]
  | some x => simp [optional]

theorem Part.optional_map {α β : Type} (parts : β → List Part) (h : α → β) (x : Option α) :
    optional parts (x.map h) = optional (fun y => parts (h y)) x := by
  cases x with
  | none => rfl
  | some x => rfl

def Constant.parts (k : Constant) : List Part := [.text k.text, .word k.index]

def LineEntry.parts (e : LineEntry) : List Part := [.word e.offset, .word e.line]

def CatchClause.parts (c : CatchClause) : List Part := [.word c.entry, .word c.errorType, .word c.slot]

def TryRegion.parts (r : TryRegion) : List Part :=
  .word r.elseEntry :: Part.collection CatchClause.parts r.clauses

def NameMap.parts (names : NameMap) : List Part :=
  Part.collection (fun (slot, name) => [.word slot, .text name]) names.entries

def Chunk.parts (c : Chunk) : List Part :=
  .code c.codeSize ::
    (Part.collection Constant.parts c.constants.entries.toList ++
      Part.collection LineEntry.parts c.lines.entries.toList ++
      Part.collection TryRegion.parts c.regions.entries.toList ++
      c.globalNames.parts ++ c.explicitNames.parts ++
      Part.collection (fun t => [.text t]) c.errorTypes.entries.toList)

def Capture.parts (c : Capture) : List Part :=
  [.text c.name, .word c.depth, .word c.source, .word c.target]

def Function.parts (f : Function) : List Part :=
  .text f.name :: .word f.arity ::
    (Part.collection (fun t => [.text t]) f.params.entries.toList ++
      Part.collection Capture.parts f.captures.toList ++ Part.optional Chunk.parts f.chunk)

def Program.parts (p : Program) : List Part :=
  Part.optional Chunk.parts p.main ++ Part.collection (Part.optional Function.parts) p.functions.toList

theorem Section.entries_map {α β : Type} (h : α → β) (entries : Section α) :
    Section.entries (Option.map (Array.map h) entries) = entries.entries.map h := by
  cases entries with
  | none => simp [Section.entries]
  | some entries => rfl

theorem Part.collection_map {α β : Type} (parts : β → List Part) (h : α → β) (xs : List α) :
    collection parts (xs.map h) = collection (fun x => parts (h x)) xs := by
  rw [collection, collection, List.length_map, List.flatMap_map]

/-- Numbers are no parts, so what changes only these leaves the parts as they are. -/
theorem Chunk.parts_map {h : Constant → Constant} (same : ∀ k, (h k).parts = k.parts) (c : Chunk) :
    Chunk.parts { c with constants := c.constants.map (Array.map h) } = c.parts := by
  simp only [parts, Section.entries_map, Array.toList_map, Part.collection_map, same]
  rfl

theorem Chunk.parts_asWritten (c : Chunk) : c.asWritten.parts = c.parts :=
  c.parts_map (h := Constant.asStored) fun _ => rfl

theorem Function.parts_asWritten (f : Function) : f.asWritten.parts = f.parts := by
  simp only [parts, asWritten, Part.optional_map, Chunk.parts_asWritten]

theorem Program.parts_asWritten (p : Program) : p.asWritten.parts = p.parts := by
  simp only [parts, asWritten, Array.toList_map, Part.collection_map, Part.optional_map, Chunk.parts_asWritten,
    Function.parts_asWritten]

/-- The program has all its functions and these their chunks, and it is one that there can be: all its parts have a
size that there is. -/
structure Program.Whole (p : Program) : Prop where
  functions : ∀ entry ∈ p.functions, ∃ f chunk, entry = some f ∧ f.chunk = some chunk
  fits : ∀ part ∈ p.parts, part.Fits

/-- Every text of the program is well-formed, and no collection has more entries than the reader accepts. -/
def Program.Legible (p : Program) : Prop := ∀ part ∈ p.parts, part.Legible

instance (p : Program) : Decidable p.Legible := inferInstanceAs (Decidable (∀ _ ∈ _, _))

namespace Wire

open Item

variable {α : Type} {data rest : Text} {depth fuel limit : Nat} {item : Item}

/-! ## Reading what was written -/

/-- The item is spelled in the way of the writer, and its numbers fit their heads. It may be too much for the
reader. -/
inductive Item.Plain : Item → Prop where
  | unsigned {n : Nat} (word : n < 2 ^ 64) : Plain (.unsigned n)
  | negative {n : Nat} (word : n < 2 ^ 64) : Plain (.negative n)
  | bytes {content : Text} (word : content.length < 2 ^ 64) : Plain (.bytes content)
  | text {content : Text} (word : content.length < 2 ^ 64) : Plain (.text [content])
  | array {items : List Item} (word : items.length < 2 ^ 64) (each : ∀ item ∈ items, item.Plain) :
      Plain (.array items)
  | map {entries : List (Item × Item)} (word : entries.length < 2 ^ 64)
      (keys : ∀ entry ∈ entries, entry.1.Plain) (values : ∀ entry ∈ entries, entry.2.Plain) :
      Plain (.map entries)
  | simple {code : Nat} (low : code < 24) : Plain (.simple code)
  | float {x : Number} (canonical : x.isNaN = true → x = .nan) : Plain (.float x)

/-- If anything is read where the item was written, it is the item. -/
def Item.Certain (item : Item) : Prop :=
  ∀ {fuel depth rest found rest'}, readItem? fuel depth (write item ++ rest) = some (found, rest') →
    found = item ∧ rest' = rest

/-- Without fuel nothing is read. -/
private theorem certain_of_succ (each : ∀ {fuel depth : Nat} {rest rest' : Text} {found : Item},
    readItem? (fuel + 1) depth (write item ++ rest) = some (found, rest') → found = item ∧ rest' = rest) :
    item.Certain := by
  intro fuel depth rest found rest' read
  cases fuel with
  | zero =>
      rw [readItem?] at read
      cases read
  | succ fuel => exact each read

theorem readCounted?_certain {items found : List Item} {rest' : Text} (each : ∀ item ∈ items, item.Certain)
    (read : readCounted? fuel depth items.length (writeAll items ++ rest) = some (found, rest')) :
    found = items ∧ rest' = rest := by
  induction items generalizing fuel found with
  | nil =>
      rw [List.length_nil, readCounted?] at read
      cases read
      exact ⟨rfl, rfl⟩
  | cons item items ih =>
      cases fuel with
      | zero =>
          rw [List.length_cons, readCounted?] at read
          cases read
      | succ fuel =>
          rw [List.length_cons, writeAll, List.append_assoc, readCounted?] at read
          obtain ⟨⟨first, after⟩, one, more⟩ := Option.bind_eq_some_iff.mp read
          obtain ⟨⟨others, after'⟩, more, done⟩ := Option.bind_eq_some_iff.mp more
          cases done
          obtain ⟨rfl, rfl⟩ := each item List.mem_cons_self one
          obtain ⟨rfl, rfl⟩ := ih (fun item member => each item (List.mem_cons_of_mem _ member)) more
          exact ⟨rfl, rfl⟩

theorem readString?_certain {content found rest' : Text}
    (read : readString? content.length (content ++ rest) = some (found, rest')) :
    found = content ∧ rest' = rest := by
  unfold readString? at read
  split at read
  · cases read
  · rw [takeExactly?_append] at read
    cases read
    exact ⟨rfl, rfl⟩

theorem Item.Plain.certain (plain : item.Plain) : item.Certain := by
  -- A string may be too long for the reader, and a container too deep or too large: then nothing is read.
  induction plain with
  | unsigned word =>
      refine certain_of_succ fun {fuel depth rest rest' found} read => ?_
      obtain ⟨info, head_⟩ := readHead?_head 0 (by omega) word rest
      simp only [write, readItem?, head_] at read
      cases read
      exact ⟨rfl, rfl⟩
  | negative word =>
      refine certain_of_succ fun {fuel depth rest rest' found} read => ?_
      obtain ⟨info, head_⟩ := readHead?_head 1 (by omega) word rest
      simp only [write, readItem?, head_] at read
      cases read
      exact ⟨rfl, rfl⟩
  | @bytes content word =>
      refine certain_of_succ fun {fuel depth rest rest' found} read => ?_
      obtain ⟨info, head_⟩ := readHead?_head 2 (by omega) word (content ++ rest)
      simp only [write, List.append_assoc, readItem?, head_] at read
      obtain ⟨⟨string, after⟩, taken, done⟩ := Option.bind_eq_some_iff.mp read
      cases done
      obtain ⟨rfl, rfl⟩ := readString?_certain taken
      exact ⟨rfl, rfl⟩
  | @text content word =>
      refine certain_of_succ fun {fuel depth rest rest' found} read => ?_
      obtain ⟨info, head_⟩ := readHead?_head 3 (by omega) word (content ++ rest)
      simp only [write, List.flatten_singleton, List.append_assoc, readItem?, head_] at read
      obtain ⟨⟨string, after⟩, taken, done⟩ := Option.bind_eq_some_iff.mp read
      cases done
      obtain ⟨rfl, rfl⟩ := readString?_certain taken
      exact ⟨rfl, rfl⟩
  | @array items word _ each =>
      refine certain_of_succ fun {fuel depth rest rest' found} read => ?_
      obtain ⟨info, head_⟩ := readHead?_head 4 (by omega) word (writeAll items ++ rest)
      simp only [write, List.append_assoc, readItem?, head_] at read
      split at read
      · cases read
      · obtain ⟨⟨items', after⟩, counted, done⟩ := Option.bind_eq_some_iff.mp read
        cases done
        obtain ⟨rfl, rfl⟩ := readCounted?_certain each counted
        exact ⟨rfl, rfl⟩
  | @map entries word _ _ keys values =>
      refine certain_of_succ fun {fuel depth rest rest' found} read => ?_
      obtain ⟨info, head_⟩ := readHead?_head 5 (by omega) word (writeEntries entries ++ rest)
      simp only [write, List.append_assoc, readItem?, head_] at read
      split at read
      · cases read
      · obtain ⟨⟨items, after⟩, counted, more⟩ := Option.bind_eq_some_iff.mp read
        obtain ⟨entries', paired, done⟩ := Option.bind_eq_some_iff.mp more
        cases done
        rw [writeEntries_eq, ← length_inTurn] at counted
        obtain ⟨rfl, rfl⟩ := readCounted?_certain (forall_inTurn keys values) counted
        cases (pairUp?_inTurn entries).symm.trans paired
        exact ⟨rfl, rfl⟩
  | simple low =>
      refine certain_of_succ fun {fuel depth rest rest' found} read => ?_
      have head_ := readHead?_head_of_lt (show 7 < 8 by omega) low rest
      simp only [write, readItem?, head_, primitive_of_lt low] at read
      cases read
      exact ⟨rfl, rfl⟩
  | float canonical =>
      refine certain_of_succ fun {fuel depth rest rest' found} read => ?_
      obtain ⟨info, n, head_, number⟩ := primitive_of_writeFloat canonical rest
      simp only [write, readItem?, head_, number] at read
      cases read
      exact ⟨rfl, rfl⟩

/-- What is read where a plain item was written is that item. -/
theorem read?_write_certain {found : Item} (plain : item.Plain) (read : read? (write item) = some found) :
    found = item := by
  unfold read? at read
  split at read
  · rename_i read_
    cases read
    rw [← List.append_nil (write item)] at read_
    exact (plain.certain read_).1
  · cases read

/-! ## What is written -/

theorem lt_of_fits {n : Nat} (fits : n ≤ maxLength) : n < 2 ^ 64 := Nat.lt_of_le_of_lt fits (by decide)

theorem int_plain {i : Int} (fits : (Part.word i).Fits) : (Item.int i).Plain := by
  have writable : (Item.int i).Writable 0 := int_writable fits
  cases i with
  | ofNat n =>
      cases writable with
      | unsigned word => exact .unsigned word
  | negSucc n =>
      cases writable with
      | negative word => exact .negative word

theorem ofText_plain {t : Text} (fits : (Part.text t).Fits) : (Item.ofText t).Plain := .text (lt_of_fits fits)

theorem bool_plain (b : Bool) : (Item.bool b).Plain := by
  cases b <;> exact .simple (by decide)

theorem record_plain {fields : List (Nat × Item)} (few : fields.length ≤ 8)
    (each : ∀ field ∈ fields, field.1 < 24 ∧ field.2.Plain) : (record fields).Plain := by
  refine .map ?_ ?_ ?_
  · rw [List.length_map]
    omega
  · intro entry member
    obtain ⟨field, listed, rfl⟩ := List.mem_map.mp member
    exact .unsigned (Nat.lt_trans (each field listed).1 (by decide))
  · intro entry member
    obtain ⟨field, listed, rfl⟩ := List.mem_map.mp member
    exact (each field listed).2

theorem array_plain {g : α → Item} {parts : α → List Part} {xs : List α}
    (fits : ∀ part ∈ Part.collection parts xs, part.Fits)
    (each : ∀ x ∈ xs, (∀ part ∈ parts x, part.Fits) → (g x).Plain) : (Item.array (xs.map g)).Plain := by
  rw [Part.forall_collection] at fits
  refine .array (by rw [List.length_map]; exact lt_of_fits fits.1) ?_
  intro item member
  obtain ⟨x, listed, rfl⟩ := List.mem_map.mp member
  exact each x listed (fits.2 x listed)

theorem sectionItem_plain {g : α → Item} {parts : α → List Part} {entries : Section α}
    (fits : ∀ part ∈ Part.collection parts entries.entries.toList, part.Fits)
    (each : ∀ x ∈ entries.entries, (∀ part ∈ parts x, part.Fits) → (g x).Plain) :
    (sectionItem g entries).Plain := by
  cases entries with
  | none => exact .simple (by decide)
  | some entries => exact array_plain fits fun x member => each x (Array.mem_toList_iff.mp member)

theorem namesItem_plain {names : Option NameMap} (fits : ∀ part ∈ NameMap.parts (names.getD .empty), part.Fits) :
    (namesItem names).Plain := by
  cases names with
  | none => exact .simple (by decide)
  | some names =>
      obtain ⟨pairs, perm, item⟩ := namesItem_eq names
      simp only [Option.getD_some, NameMap.parts, Part.forall_collection, List.forall_mem_cons] at fits
      rw [item]
      refine .map ?_ ?_ ?_
      · rw [List.length_map, perm.length_eq]
        exact lt_of_fits fits.1
      · intro entry member
        obtain ⟨pair, listed, rfl⟩ := List.mem_map.mp member
        exact int_plain (fits.2 pair (perm.mem_iff.mp listed)).1
      · intro entry member
        obtain ⟨pair, listed, rfl⟩ := List.mem_map.mp member
        exact ofText_plain (fits.2 pair (perm.mem_iff.mp listed)).2.1

theorem codeItem_plain {code : Section UInt8} (fits : (Part.code code.entries.size).Fits) :
    (codeItem code).Plain := by
  cases code with
  | none => exact .simple (by decide)
  | some code => exact .bytes (by simpa [Section.entries] using lt_of_fits fits)

theorem constantItem_plain {k : Constant} (fits : ∀ part ∈ k.parts, part.Fits)
    (canonical : k.number.isNaN = true → k.number = .nan) : (constantItem k).Plain := by
  simp only [Constant.parts, List.forall_mem_cons] at fits
  have tag : (Item.unsigned k.tag.toNat).Plain := .unsigned (Nat.lt_trans k.tag.toNat_lt (by decide))
  apply record_plain
  · have number := length_unless_le k.number.isZero 2 (.float k.number)
    have text := length_unless_le k.text.isEmpty 3 (.ofText k.text)
    have flag := length_unless_le (!k.flag) 4 (.bool k.flag)
    have index := length_unless_le (k.index == 0) 5 (.int k.index)
    simp only [List.length_append, List.length_cons, List.length_nil]
    omega
  · simp only [List.forall_mem_append]
    exact ⟨⟨⟨⟨by simp [tag], forall_unless ⟨by simp, .float canonical⟩⟩,
      forall_unless ⟨by simp, ofText_plain fits.1⟩⟩, forall_unless ⟨by simp, bool_plain k.flag⟩⟩,
      forall_unless ⟨by simp, int_plain fits.2.1⟩⟩

theorem lineItem_plain {e : LineEntry} (fits : ∀ part ∈ e.parts, part.Fits) : (lineItem e).Plain := by
  simp only [LineEntry.parts, List.forall_mem_cons] at fits
  exact record_plain (by simp) (by simp [int_plain fits.1, int_plain fits.2.1])

theorem clauseItem_plain {c : CatchClause} (fits : ∀ part ∈ c.parts, part.Fits) : (clauseItem c).Plain := by
  simp only [CatchClause.parts, List.forall_mem_cons] at fits
  exact record_plain (by simp) (by simp [int_plain fits.1, int_plain fits.2.1, int_plain fits.2.2.1])

theorem regionItem_plain {r : TryRegion} (fits : ∀ part ∈ r.parts, part.Fits) : (regionItem r).Plain := by
  rw [TryRegion.parts, List.forall_mem_cons] at fits
  have catches : (sectionItem clauseItem r.catches).Plain :=
    sectionItem_plain fits.2 fun c _ => clauseItem_plain
  exact record_plain (by simp) (by simp [catches, int_plain fits.1])

theorem captureItem_plain {c : Capture} (fits : ∀ part ∈ c.parts, part.Fits) : (captureItem c).Plain := by
  simp only [Capture.parts, List.forall_mem_cons] at fits
  exact record_plain (by simp) (by simp [ofText_plain fits.1, int_plain fits.2.1, int_plain fits.2.2.1,
    int_plain fits.2.2.2.1])

theorem texts_plain {texts : Section Text}
    (fits : ∀ part ∈ Part.collection (fun t => [.text t]) texts.entries.toList, part.Fits) :
    (sectionItem Item.ofText texts).Plain :=
  sectionItem_plain fits fun _ _ fits => ofText_plain (fits _ List.mem_cons_self)

theorem chunkItem_plain {c : Chunk} (fits : ∀ part ∈ c.parts, part.Fits) : (chunkItem c.asWritten).Plain := by
  rw [← c.parts_asWritten, Chunk.parts] at fits
  simp only [List.forall_mem_cons, List.forall_mem_append] at fits
  obtain ⟨code, ⟨⟨⟨⟨constants, lines⟩, regions⟩, globals⟩, explicit⟩, errorTypes⟩ := fits
  have version : (Item.unsigned c.version.toNat).Plain := .unsigned (Nat.lt_trans c.version.toNat_lt (by decide))
  have constants_ : (sectionItem constantItem c.asWritten.constants).Plain := by
    refine sectionItem_plain constants fun k member fits => constantItem_plain fits ?_
    rw [Chunk.asWritten, Section.entries_map] at member
    obtain ⟨given, _, rfl⟩ := Array.mem_map.mp member
    exact given.number.eq_nan_of_asStored
  have lines_ : (sectionItem lineItem c.asWritten.lines).Plain := sectionItem_plain lines fun _ _ => lineItem_plain
  have regions_ : (sectionItem regionItem c.asWritten.regions).Plain :=
    sectionItem_plain regions fun _ _ => regionItem_plain
  apply record_plain (by simp)
  simp only [List.forall_mem_cons]
  exact ⟨⟨by decide, version⟩, ⟨by decide, codeItem_plain code⟩, ⟨by decide, constants_⟩, ⟨by decide, lines_⟩,
    ⟨by decide, regions_⟩, ⟨by decide, namesItem_plain globals⟩, ⟨by decide, namesItem_plain explicit⟩,
    ⟨by decide, texts_plain errorTypes⟩, by simp⟩

theorem optionItem_plain {g : α → Item} {x : Option α} (each : ∀ y, x = some y → (g y).Plain) :
    (optionItem g x).Plain := by
  cases x with
  | none => exact .simple (by decide)
  | some x => exact each x rfl

theorem functionItem_plain {f : Function} (fits : ∀ part ∈ f.parts, part.Fits) :
    (functionItem f.asWritten).Plain := by
  rw [Function.parts] at fits
  simp only [List.forall_mem_cons, List.forall_mem_append] at fits
  obtain ⟨name, arity, ⟨params, captures⟩, chunk⟩ := fits
  have params_ : (sectionItem Item.ofText f.params).Plain := texts_plain params
  have captures_ : (Item.array (f.captures.toList.map captureItem)).Plain :=
    array_plain captures fun _ _ => captureItem_plain
  have chunk_ : (optionItem chunkItem f.asWritten.chunk).Plain := by
    apply optionItem_plain
    intro written written_
    obtain ⟨given, present, rfl⟩ := Option.map_eq_some_iff.mp written_
    exact chunkItem_plain (Part.forall_optional.mp chunk given present)
  apply record_plain
  · have params := length_unless_le f.params.entries.isEmpty 3 (sectionItem Item.ofText f.params)
    have captures := length_unless_le f.captures.isEmpty 4 (.array (f.captures.toList.map captureItem))
    have flag := length_unless_le (!f.cacheable) 6 (.bool f.cacheable)
    simp only [Function.asWritten, List.length_append, List.length_cons, List.length_nil]
    omega
  · simp only [List.forall_mem_append]
    exact ⟨⟨⟨⟨by simp [Function.asWritten, ofText_plain name, int_plain arity],
      forall_unless ⟨by simp, params_⟩⟩, forall_unless ⟨by simp, captures_⟩⟩, by simp [chunk_]⟩,
      forall_unless ⟨by simp, bool_plain _⟩⟩

theorem programItem_plain {p : Program} (fits : ∀ part ∈ p.parts, part.Fits) :
    (programItem p.asWritten).Plain := by
  rw [Program.parts, List.forall_mem_append] at fits
  obtain ⟨main, functions⟩ := fits
  have main_ : (optionItem chunkItem p.asWritten.main).Plain := by
    apply optionItem_plain
    intro written written_
    obtain ⟨given, present, rfl⟩ := Option.map_eq_some_iff.mp written_
    exact chunkItem_plain (Part.forall_optional.mp main given present)
  have functions_ : (Item.array (p.asWritten.functions.toList.map (optionItem functionItem))).Plain := by
    rw [Program.asWritten, Array.toList_map, List.map_map]
    refine array_plain functions fun entry _ fits => optionItem_plain fun written present => ?_
    obtain ⟨given, rfl, rfl⟩ := Option.map_eq_some_iff.mp present
    exact functionItem_plain fits
  apply record_plain
  · have functions := length_unless_le p.asWritten.functions.isEmpty 2
      (.array (p.asWritten.functions.toList.map (optionItem functionItem)))
    simp only [List.length_append, List.length_cons, List.length_nil]
    omega
  · simp only [List.forall_mem_append]
    exact ⟨by simp [main_], forall_unless ⟨by simp, functions_⟩⟩

/-! ## What is decoded -/

theorem textOr?_legible {t t' absent : Text} (done : textOr? absent (.ofText t) = some t') :
    (Part.text t).Legible := by
  rw [textOr?, orNull?_plain rfl rfl] at done
  simp only [Item.ofText, Option.ite_none_right_eq_some, List.all_cons, List.all_nil, Bool.and_true] at done
  exact done.1

theorem record_sized {fields : List (Nat × Item)} (sized : (record fields).Sized limit) :
    ∀ field ∈ fields, field.2.Sized limit := by
  intro field member
  cases sized with
  | map _ _ values => exact values _ (List.mem_map_of_mem member)

theorem array_legible {f : Item → Option α} {g : α → Item} {parts : α → List Part} {xs : List α}
    {decoded : Section α} (done : section? f (.array (xs.map g)) = some decoded)
    (sized : (Item.array (xs.map g)).Sized limit)
    (each : ∀ x ∈ xs, ∀ y, f (g x) = some y → (g x).Sized limit → ∀ part ∈ parts x, part.Legible) :
    ∀ part ∈ Part.collection parts xs, part.Legible := by
  rw [section?, orNull?_plain rfl rfl] at done
  obtain ⟨ys, done, _⟩ := Option.map_eq_some_iff.mp done
  cases sized with
  | array few items =>
      rw [List.length_map] at few
      refine Part.forall_collection.mpr ⟨few, fun x member => ?_⟩
      have listed : g x ∈ xs.map g := List.mem_map_of_mem member
      obtain ⟨y, decoded⟩ := (exists_of_mapM done).2.1 (g x) listed
      exact each x member y decoded (items (g x) listed)

theorem section_legible {f : Item → Option α} {g : α → Item} {parts : α → List Part} {entries decoded : Section α}
    (done : section? f (sectionItem g entries) = some decoded) (sized : (sectionItem g entries).Sized limit)
    (each : ∀ x y, f (g x) = some y → (g x).Sized limit → ∀ part ∈ parts x, part.Legible) :
    ∀ part ∈ Part.collection parts entries.entries.toList, part.Legible := by
  cases entries with
  | none => simp [Section.entries, Part.Legible]
  | some entries => exact array_legible done sized fun x _ => each x

theorem texts_legible {texts decoded : Section Text}
    (done : section? text? (sectionItem Item.ofText texts) = some decoded)
    (sized : (sectionItem Item.ofText texts).Sized limit) :
    ∀ part ∈ Part.collection (fun t => [.text t]) texts.entries.toList, part.Legible :=
  section_legible done sized fun _ _ done _ => List.forall_mem_singleton.mpr (textOr?_legible done)

theorem namesAfter?_legible {pairs names : List (Int × Text)} {slot : Int} {name : Text}
    (done : namesAfter? slot name (pairs.map fun (slot, name) => (.int slot, .ofText name)) = some names) :
    ∀ pair ∈ pairs, (Part.text pair.2).Legible := by
  induction pairs generalizing slot name names with
  | nil => simp
  | cons pair pairs ih =>
      rw [List.map_cons, namesAfter?] at done
      obtain ⟨slot', _, done⟩ := Option.bind_eq_some_iff.mp done
      obtain ⟨name', text, done⟩ := Option.bind_eq_some_iff.mp done
      obtain ⟨names', rest, done⟩ := Option.bind_eq_some_iff.mp done
      exact List.forall_mem_cons.mpr ⟨textOr?_legible text, ih rest⟩

theorem names_legible {names decoded : Option NameMap} (done : names? (namesItem names) = some decoded)
    (sized : (namesItem names).Sized limit) : ∀ part ∈ NameMap.parts (names.getD .empty), part.Legible := by
  cases names with
  | none => simp [NameMap.parts, Part.Legible]
  | some names =>
      obtain ⟨pairs, perm, item⟩ := namesItem_eq names
      rw [item] at done sized
      rw [names?, orNull?_plain rfl rfl] at done
      obtain ⟨names', done, _⟩ := Option.map_eq_some_iff.mp done
      cases sized with
      | map few _ _ =>
          rw [List.length_map, perm.length_eq] at few
          refine Part.forall_collection.mpr ⟨few, fun pair member => ?_⟩
          simpa [Part.Legible] using namesAfter?_legible done pair (perm.mem_iff.mpr member)

/-- A text that is left out when it is empty was well-formed in either case. -/
theorem unless_text_legible {t t' : Text} (done : (if t.isEmpty = false then text? (.ofText t) else text? .null) =
    some t') : (Part.text t).Legible := by
  split at done
  · exact textOr?_legible done
  · rename_i empty
    rw [Bool.not_eq_false, List.isEmpty_iff] at empty
    subst empty
    exact (rfl : Text.isUtf8 [] = true)

theorem constantItem_legible {k k' : Constant} (done : constant? (constantItem k) = some k') :
    ∀ part ∈ k.parts, part.Legible := by
  simp only [constant?, constantItem, fields?_record, Option.bind_eq_bind, Option.bind_some, List.map_append,
    List.map_cons, List.append_assoc, List.cons_append, List.nil_append, field?_cons, field?_unless_append,
    field?_unless, if_false, if_true, Nat.reduceEqDiff, false_and, true_and] at done
  obtain ⟨tag, _, done⟩ := Option.bind_eq_some_iff.mp done
  obtain ⟨number, _, done⟩ := Option.bind_eq_some_iff.mp done
  obtain ⟨text, text_, done⟩ := Option.bind_eq_some_iff.mp done
  exact List.forall_mem_cons.mpr ⟨unless_text_legible text_, List.forall_mem_singleton.mpr trivial⟩

theorem regionItem_legible {r r' : TryRegion} (done : region? (regionItem r) = some r')
    (sized : (regionItem r).Sized limit) : ∀ part ∈ r.parts, part.Legible := by
  simp only [region?, regionItem, fields?_record, Option.bind_eq_bind, Option.bind_some, List.map_cons, field?_cons,
    if_true] at done
  obtain ⟨catches, catches_, done⟩ := Option.bind_eq_some_iff.mp done
  have inside := record_sized sized
  simp only [List.forall_mem_cons] at inside
  refine List.forall_mem_cons.mpr ⟨trivial, section_legible catches_ inside.1 fun c _ _ _ => ?_⟩
  simp [CatchClause.parts, Part.Legible]

theorem captureItem_legible {c c' : Capture} (done : capture? (captureItem c) = some c') :
    ∀ part ∈ c.parts, part.Legible := by
  simp only [capture?, captureItem, fields?_record, Option.bind_eq_bind, Option.bind_some, List.map_cons, field?_cons,
    if_true] at done
  obtain ⟨name, name_, done⟩ := Option.bind_eq_some_iff.mp done
  refine List.forall_mem_cons.mpr ⟨textOr?_legible name_, ?_⟩
  simp [Part.Legible]

theorem chunkItem_legible {c c' : Chunk} (done : chunk? (chunkItem c) = some c')
    (sized : (chunkItem c).Sized limit) : ∀ part ∈ c.parts, part.Legible := by
  simp only [chunk?, chunkItem, fields?_record, Option.bind_eq_bind, Option.bind_some, List.map_cons, field?_cons,
    if_true, if_false, Nat.reduceEqDiff] at done
  obtain ⟨version, _, done⟩ := Option.bind_eq_some_iff.mp done
  obtain ⟨code, _, done⟩ := Option.bind_eq_some_iff.mp done
  obtain ⟨constants, constants_, done⟩ := Option.bind_eq_some_iff.mp done
  obtain ⟨lines, lines_, done⟩ := Option.bind_eq_some_iff.mp done
  obtain ⟨regions, regions_, done⟩ := Option.bind_eq_some_iff.mp done
  obtain ⟨globals, globals_, done⟩ := Option.bind_eq_some_iff.mp done
  obtain ⟨explicit, explicit_, done⟩ := Option.bind_eq_some_iff.mp done
  obtain ⟨errorTypes, errorTypes_, done⟩ := Option.bind_eq_some_iff.mp done
  have inside := record_sized sized
  simp only [List.forall_mem_cons] at inside
  obtain ⟨_, _, constantsSized, linesSized, regionsSized, globalsSized, explicitSized, errorTypesSized, _⟩ := inside
  rw [Chunk.parts]
  simp only [List.forall_mem_cons, List.forall_mem_append]
  refine ⟨trivial, ⟨⟨⟨⟨?_, ?_⟩, ?_⟩, names_legible globals_ globalsSized⟩, names_legible explicit_ explicitSized⟩,
    texts_legible errorTypes_ errorTypesSized⟩
  · exact section_legible constants_ constantsSized fun _ _ done _ => constantItem_legible done
  · refine section_legible lines_ linesSized fun e _ _ _ => ?_
    simp [LineEntry.parts, Part.Legible]
  · exact section_legible regions_ regionsSized fun _ _ => regionItem_legible

theorem optionItem_legible {f : Item → Option α} {g : α → Item} {parts : α → List Part} {x decoded : Option α}
    (done : option? f (optionItem g x) = some decoded) (sized : (optionItem g x).Sized limit)
    (present : ∀ y, (g y).isNull = false)
    (each : ∀ y z, f (g y) = some z → (g y).Sized limit → ∀ part ∈ parts y, part.Legible) :
    ∀ part ∈ Part.optional parts x, part.Legible := by
  cases x with
  | none => simp [Part.optional]
  | some x =>
      simp only [option?, optionItem, present, Bool.false_eq_true, if_false] at done
      obtain ⟨y, done, _⟩ := Option.map_eq_some_iff.mp done
      exact each x y done sized

/-- A section that is left out when it is empty had few and legible entries in either case. -/
theorem unless_section_legible {f : Item → Option α} {g : α → Item} {parts : α → List Part} {decoded : Section α}
    {number : Nat} (entries : Section α)
    (done : (if entries.entries.isEmpty = false then section? f (sectionItem g entries) else section? f .null) =
      some decoded)
    (sized : ∀ field ∈ unless_ entries.entries.isEmpty number (sectionItem g entries), field.2.Sized limit)
    (each : ∀ x y, f (g x) = some y → (g x).Sized limit → ∀ part ∈ parts x, part.Legible) :
    ∀ part ∈ Part.collection parts entries.entries.toList, part.Legible := by
  cases empty : entries.entries.isEmpty with
  | true =>
      rw [Array.isEmpty_iff.mp empty]
      simp [Part.Legible]
  | false =>
      rw [if_pos empty] at done
      simp only [unless_, empty, Bool.false_eq_true, if_false, List.forall_mem_singleton] at sized
      exact section_legible done sized each

theorem functionItem_legible {f f' : Function} (done : function? (functionItem f) = some f')
    (sized : (functionItem f).Sized limit) : ∀ part ∈ f.parts, part.Legible := by
  simp only [function?, functionItem, fields?_record, Option.bind_eq_bind, Option.bind_some, List.map_append,
    List.map_cons, List.append_assoc, List.cons_append, List.nil_append, field?_cons, field?_unless_append,
    field?_unless, if_true, if_false, Nat.reduceEqDiff, false_and, true_and] at done
  obtain ⟨name, name_, done⟩ := Option.bind_eq_some_iff.mp done
  obtain ⟨arity, _, done⟩ := Option.bind_eq_some_iff.mp done
  obtain ⟨params, params_, done⟩ := Option.bind_eq_some_iff.mp done
  obtain ⟨captures, captures_, done⟩ := Option.bind_eq_some_iff.mp done
  obtain ⟨chunk, chunk_, done⟩ := Option.bind_eq_some_iff.mp done
  have inside := record_sized sized
  simp only [List.forall_mem_append, List.forall_mem_cons] at inside
  obtain ⟨⟨⟨⟨_, paramsSized⟩, capturesSized⟩, chunkSized, _⟩, _⟩ := inside
  rw [Function.parts]
  simp only [List.forall_mem_cons, List.forall_mem_append]
  refine ⟨textOr?_legible name_, trivial, ⟨?_, ?_⟩, ?_⟩
  · exact unless_section_legible f.params params_ paramsSized fun _ _ done _ =>
      List.forall_mem_singleton.mpr (textOr?_legible done)
  · exact unless_section_legible (some f.captures) captures_ capturesSized fun _ _ done _ =>
      captureItem_legible done
  · exact optionItem_legible chunk_ chunkSized (fun _ => rfl) fun _ _ => chunkItem_legible

theorem programItem_legible {p p' : Program} (done : program? (programItem p) = some p')
    (sized : (programItem p).Sized limit) : p.Legible := by
  simp only [program?, programItem, fields?_record, Option.bind_eq_bind, Option.bind_some, List.map_cons,
    List.cons_append, List.nil_append, field?_cons, field?_unless, if_true, if_false, Nat.reduceEqDiff, false_and,
    true_and] at done
  obtain ⟨main, main_, done⟩ := Option.bind_eq_some_iff.mp done
  obtain ⟨functions, functions_, done⟩ := Option.bind_eq_some_iff.mp done
  have inside := record_sized sized
  simp only [List.forall_mem_append, List.forall_mem_singleton] at inside
  refine List.forall_mem_append.mpr ⟨?_, ?_⟩
  · exact optionItem_legible main_ inside.1 (fun _ => rfl) fun _ _ => chunkItem_legible
  · refine unless_section_legible (some p.functions) functions_ inside.2 fun entry decoded done sized => ?_
    exact optionItem_legible done sized (fun _ => rfl) fun _ _ => functionItem_legible

theorem legible_of_decoded {p p' : Program} (fits : ∀ part ∈ p.parts, part.Fits)
    (decoded : (read? (programItem p).write).bind program? = some p') : p.Legible := by
  -- The item of `p` itself may hold words that are not a number, which are not read as they were.
  rw [← write_programItem p] at decoded
  obtain ⟨item, read, done⟩ := Option.bind_eq_some_iff.mp decoded
  obtain rfl := read?_write_certain (programItem_plain fits) read
  have legible := programItem_legible done (read?_framed read).2
  rwa [Program.Legible, p.parts_asWritten] at legible

end Wire

/-! ## What can be loaded -/

def Part.Storable (part : Part) : Prop := part.Fits ∧ part.Legible

theorem Text.storable_of_part {t : Text} (storable : (Part.text t).Storable) : t.Storable :=
  ⟨storable.2, storable.1⟩

theorem Section.storable_of_parts {α : Type} {each : α → Prop} {parts : α → List Part} {entries : Section α}
    (storable : ∀ part ∈ Part.collection parts entries.entries.toList, part.Storable)
    (all : ∀ x, (∀ part ∈ parts x, part.Storable) → each x) : entries.Storable each := by
  rw [Part.forall_collection] at storable
  refine ⟨?_, fun x member => all x (storable.2 x (Array.mem_toList_iff.mpr member))⟩
  rw [← Array.length_toList]
  exact storable.1.2

theorem Section.storable_texts {texts : Section Text}
    (storable : ∀ part ∈ Part.collection (fun t => [.text t]) texts.entries.toList, part.Storable) :
    texts.Storable Text.Storable :=
  Section.storable_of_parts storable fun _ storable => Text.storable_of_part (storable _ List.mem_cons_self)

theorem NameMap.storable_of_parts {names : NameMap} (storable : ∀ part ∈ names.parts, part.Storable) :
    names.Storable := by
  simp only [parts, Part.forall_collection, List.forall_mem_cons] at storable
  exact {
    few := storable.1.2
    slots := fun entry member => (storable.2 entry member).1.1
    texts := fun entry member => Text.storable_of_part (storable.2 entry member).2.1 }

theorem TryRegion.storable_of_parts {r : TryRegion} (storable : ∀ part ∈ r.parts, part.Storable) : r.Storable := by
  rw [parts, List.forall_mem_cons] at storable
  refine ⟨Section.storable_of_parts storable.2 fun c storable => ?_, storable.1.1⟩
  simp only [CatchClause.parts, List.forall_mem_cons] at storable
  exact ⟨storable.1.1, storable.2.1.1, storable.2.2.1.1⟩

theorem Chunk.storable_of_parts {c : Chunk} (storable : ∀ part ∈ c.parts, part.Storable) :
    c.recoded.Storable := by
  rw [parts] at storable
  simp only [List.forall_mem_cons, List.forall_mem_append] at storable
  obtain ⟨code, ⟨⟨⟨⟨constants, lines⟩, regions⟩, globals⟩, explicit⟩, errorTypes⟩ := storable
  have constants_ : c.constants.Storable fun k => k.recoded.Storable := by
    refine Section.storable_of_parts constants fun k storable => ?_
    simp only [Constant.parts, List.forall_mem_cons] at storable
    exact ⟨k.number.recoded_ne_negativeZero, Text.storable_of_part storable.1, storable.2.1.1⟩
  have lines_ : c.lines.Storable LineEntry.Storable := by
    refine Section.storable_of_parts lines fun e storable => ?_
    simp only [LineEntry.parts, List.forall_mem_cons] at storable
    exact ⟨storable.1.1, storable.2.1.1⟩
  exact {
    code := code.1
    constants := constants_.map fun _ storable => storable
    lines := lines_
    regions := Section.storable_of_parts regions fun _ => TryRegion.storable_of_parts
    globals := NameMap.storable_of_parts globals
    explicit := NameMap.storable_of_parts explicit
    errorTypes := Section.storable_texts errorTypes }

theorem Function.storable_of_parts {f : Function} {chunk : Chunk} (storable : ∀ part ∈ f.parts, part.Storable)
    (present : f.chunk = some chunk) : f.recoded.Storable := by
  rw [parts] at storable
  simp only [List.forall_mem_cons, List.forall_mem_append] at storable
  obtain ⟨name, arity, ⟨params, captures⟩, chunk_⟩ := storable
  exact {
    name := Text.storable_of_part name
    arity := arity.1
    params := by
      unfold recoded
      split
      · exact ⟨Nat.zero_le _, by simp [Section.entries]⟩
      · exact Section.storable_texts params
    captures := by
      refine Section.storable_of_parts captures fun c storable => ?_
      simp only [Capture.parts, List.forall_mem_cons] at storable
      exact ⟨Text.storable_of_part storable.1, storable.2.1.1, storable.2.2.1.1, storable.2.2.2.1.1⟩
    chunk := by
      refine ⟨chunk.recoded, by rw [recoded, present]; rfl, ?_⟩
      exact Chunk.storable_of_parts (Part.forall_optional.mp chunk_ chunk present) }

theorem Program.Whole.storable {p : Program} {main : Chunk} (whole : p.Whole) (present : p.main = some main)
    (legible : p.Legible) : p.recoded.Storable := by
  have storable : ∀ part ∈ p.parts, part.Storable := fun part member => ⟨whole.fits part member, legible part member⟩
  rw [parts, List.forall_mem_append, Part.forall_collection] at storable
  obtain ⟨main_, functions⟩ := storable
  refine ⟨⟨main.recoded, by rw [recoded, present]; rfl, ?_⟩, ?_, fun entry member => ?_⟩
  · exact Chunk.storable_of_parts (Part.forall_optional.mp main_ main present)
  · rw [recoded, Array.size_map, ← Array.length_toList]
    exact functions.1.2
  · obtain ⟨given, listed, rfl⟩ := Array.mem_map.mp member
    obtain ⟨f, chunk, rfl, chunk_⟩ := whole.functions given listed
    exact ⟨f.recoded, rfl, Function.storable_of_parts (functions.2 _ (Array.mem_toList_iff.mpr listed)) chunk_⟩

namespace Artifact

theorem load_of_undecoded {body : Text} (undecoded : (Wire.read? body).bind Wire.program? = none) :
    load (mark ++ versionBytes Chunk.currentVersion ++ body) = .error .malformed := by
  have long : ¬ (mark ++ versionBytes Chunk.currentVersion ++ body).length < 6 := by
    simp [mark, versionBytes]
  have rest : (mark ++ versionBytes Chunk.currentVersion ++ body).drop 6 = body := rfl
  unfold load
  rw [if_neg long, rest, undecoded]
  rfl

/-- What was stored can be loaded exactly if the program is legible. It is then the program again, up to what the
stored form does not keep; otherwise the artifact counts as malformed. -/
theorem load_stored_eq {p : Program} {data : Text} (whole : p.Whole) (stored : store p = .ok data) :
    load data = if p.Legible then .ok p.recoded.asStored else .error .malformed := by
  obtain ⟨main, present⟩ : ∃ main, p.main = some main := by
    unfold store at stored
    split at stored
    · cases stored
    · rename_i main present
      exact ⟨main, present⟩
  cases (store_of_main present).symm.trans stored
  split
  · rename_i legible
    have same : bytes p.recoded = bytes p := by rw [bytes, Wire.write_programItem_recoded, bytes]
    rw [← same, load_bytes (whole.storable present legible)]
  · rename_i illegible
    cases decoded : (Wire.read? (Wire.programItem p).write).bind Wire.program? with
    | none => exact load_of_undecoded decoded
    | some q => exact absurd (Wire.legible_of_decoded whole.fits decoded) illegible

end Artifact

/-! ## Programs with a stray byte

One text is the constant of two chunks and the name of a captured variable. It may be a letter of two bytes, or the
first of these bytes alone.
-/

namespace Stray

def main (t : Text) : Chunk :=
  { Chunk.empty with
    constants := some #[Literal.constant (.string t)]
    globals := some ⟨[(-1, [0x61]), (24, [0x62])], by decide⟩ }

def program (t : Text) : Program :=
  ⟨some (main t), #[some ⟨[0x66], 1, some #[[0x78]], #[⟨t, 0, 1, 0⟩], true, some (main t)⟩]⟩

theorem whole {t : Text} (fits : ∀ part ∈ (program t).parts, part.Fits) : (program t).Whole where
  functions := by
    intro entry member
    exact ⟨_, _, List.mem_singleton.mp (Array.mem_toList_iff.mpr member), rfl⟩
  fits := fits

end Stray

namespace Artifact

theorem load_stored_eq_of_stray :
    ∃ good bad, store (Stray.program [0xC3, 0xA9]) = .ok good ∧ store (Stray.program [0xC3]) = .ok bad ∧
      (∃ q, load good = .ok q) ∧ load bad = .error .malformed := by
  obtain ⟨good, stored⟩ : ∃ good, store (Stray.program [0xC3, 0xA9]) = .ok good := ⟨_, rfl⟩
  obtain ⟨bad, stored'⟩ : ∃ bad, store (Stray.program [0xC3]) = .ok bad := ⟨_, rfl⟩
  have loaded := load_stored_eq (Stray.whole (by decide)) stored
  have refused := load_stored_eq (Stray.whole (by decide)) stored'
  rw [if_pos (by decide)] at loaded
  rw [if_neg (by decide)] at refused
  exact ⟨good, bad, stored, stored', ⟨_, loaded⟩, refused⟩

end Artifact

end TableMachine
