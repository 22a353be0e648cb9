import TableMachine.Proofs.Dictionaries
import TableMachine.Proofs.Items
import TableMachine.Wire.Decode
import TableMachine.Wire.Encode

/-! # What is encoded is decoded

One lemma for each sort of value says that its item is decoded as the value, and one that the item can be
written. A structure is a list of numbered fields, some of which are left out when they hold nothing; what
is left out is decoded as null, and null as nothing. A map of names is stored in another order than it is
kept in: setting names one by one puts any order right.
-/

namespace TableMachine

/-! ## What can be stored -/

/-- The integer has 64 bits. -/
def IsWord (i : Int) : Prop := Wire.leastInt ≤ i ∧ i ≤ Wire.greatestInt

instance (i : Int) : Decidable (IsWord i) := inferInstanceAs (Decidable (_ ∧ _))

structure Text.Storable (t : Text) : Prop where
  utf8 : t.isUtf8 = true
  length : t.length ≤ Wire.maxLength

structure Section.Storable {α : Type} (each : α → Prop) (entries : Section α) : Prop where
  few : entries.entries.size ≤ Wire.maxEntries
  all : ∀ x ∈ entries.entries, each x

structure NameMap.Storable (names : NameMap) : Prop where
  few : names.size ≤ Wire.maxEntries
  slots : ∀ entry ∈ names.entries, IsWord entry.1
  texts : ∀ entry ∈ names.entries, Text.Storable entry.2

/-- The zero that is not stored as itself. -/
def Number.negativeZero : Number := ofMagnitude true 0

structure Constant.Storable (k : Constant) : Prop where
  number : k.number ≠ .negativeZero
  text : k.text.Storable
  index : IsWord k.index

structure LineEntry.Storable (e : LineEntry) : Prop where
  offset : IsWord e.offset
  line : IsWord e.line

structure CatchClause.Storable (c : CatchClause) : Prop where
  entry : IsWord c.entry
  errorType : IsWord c.errorType
  slot : IsWord c.slot

structure TryRegion.Storable (r : TryRegion) : Prop where
  catches : r.catches.Storable CatchClause.Storable
  elseEntry : IsWord r.elseEntry

structure Chunk.Storable (c : Chunk) : Prop where
  code : c.code.entries.size ≤ Wire.maxLength
  constants : c.constants.Storable Constant.Storable
  lines : c.lines.Storable LineEntry.Storable
  regions : c.regions.Storable TryRegion.Storable
  globals : c.globalNames.Storable
  explicit : c.explicitNames.Storable
  errorTypes : c.errorTypes.Storable Text.Storable

structure Capture.Storable (c : Capture) : Prop where
  name : c.name.Storable
  depth : IsWord c.depth
  source : IsWord c.source
  target : IsWord c.target

structure Function.Storable (f : Function) : Prop where
  name : f.name.Storable
  arity : IsWord f.arity
  params : f.params.Storable Text.Storable
  captures : Section.Storable Capture.Storable (some f.captures)
  chunk : ∃ chunk, f.chunk = some chunk ∧ chunk.Storable

/-- The function without parameter names where these are empty. -/
def Function.trimmed (f : Function) : Function :=
  { f with params := if f.params.entries.isEmpty then none else f.params }

/-- Nothing is missing from the program, its texts are well-formed, no collection has more entries than
the reader accepts, and no constant is a negative zero. -/
structure Program.Storable (p : Program) : Prop where
  main : ∃ main, p.main = some main ∧ main.Storable
  few : p.functions.size ≤ Wire.maxEntries
  functions : ∀ entry ∈ p.functions, ∃ f, entry = some f ∧ f.Storable

namespace Wire

open Item

variable {α : Type} {depth : Nat} {i : Int} {t : Text}

/-! ## Scalars -/

theorem orNull?_plain {absent : α} {f : Item → Option α} {item : Item} (plain : untag? item = some item)
    (present : item.isNull = false) : orNull? absent f item = f item := by
  simp [orNull?, plain, present]

theorem untag?_int (i : Int) : untag? (.int i) = some (.int i) := by
  cases i with
  | ofNat n => rfl
  | negSucc n => rfl

theorem isNull_int (i : Int) : (Item.int i).isNull = false := by
  cases i with
  | ofNat n => rfl
  | negSucc n => rfl

theorem intOr?_int (word : IsWord i) (absent : Int) : intOr? absent (.int i) = some i := by
  rw [intOr?, orNull?_plain (untag?_int i) (isNull_int i), wholeWithin?]
  have whole : whole? (.int i) = some i := by
    obtain ⟨low, high⟩ := word
    unfold leastInt at low
    cases i with
    | ofNat n => rfl
    | negSucc n =>
        simp only [pow2_eq] at low
        rw [Item.int, whole?, if_pos (by rw [pow2_eq]; omega)]
        congr 1
        omega
  simp [whole, word.1, word.2]

theorem textOr?_ofText (storable : t.Storable) (absent : Text) : textOr? absent (.ofText t) = some t := by
  show orNull? absent _ _ = _
  rw [orNull?_plain rfl rfl]
  simp [Item.ofText, storable.utf8]

theorem bool?_bool (b : Bool) : bool? (.bool b) = some b := by
  cases b <;> rfl

theorem intWithin?_unsigned {n : Nat} {high : Int} (small : (n : Int) ≤ high) :
    intWithin? 0 high (.unsigned n) = some n := by
  rw [intWithin?, orNull?_plain rfl rfl, wholeWithin?]
  simp [whole?, small]

theorem byte?_unsigned (b : UInt8) : byte? (.unsigned b.toNat) = some b := by
  have small := b.toNat_lt
  rw [byte?, intWithin?_unsigned (by omega)]
  simp

theorem number?_float (x : Number) : number? (.float x) = some x := by
  show orNull? _ _ _ = _
  rw [orNull?_plain rfl rfl]

theorem int_writable (word : IsWord i) : (Item.int i).Writable depth := by
  obtain ⟨low, high⟩ := word
  unfold leastInt greatestInt at *
  simp only [pow2_eq] at *
  cases i with
  | ofNat n =>
      rw [Int.ofNat_eq_natCast] at high
      exact .unsigned (by omega)
  | negSucc n => exact .negative (by omega)

theorem bool_writable (b : Bool) : (Item.bool b).Writable depth := by
  cases b <;> exact .simple (by decide)

theorem ofText_writable (storable : t.Storable) : (Item.ofText t).Writable depth :=
  .text storable.length

/-! ## Sections -/

private theorem mapM_map_eq {β : Type} {f : β → Option α} {g : α → β} {h : α → α} {xs : List α}
    (each : ∀ x ∈ xs, f (g x) = some (h x)) : (xs.map g).mapM f = some (xs.map h) := by
  induction xs with
  | nil => rfl
  | cons x xs ih =>
      rw [List.map_cons, List.mapM_cons, each x List.mem_cons_self,
        ih fun y member => each y (List.mem_cons_of_mem x member)]
      rfl

theorem section?_map {f : Item → Option α} {g : α → Item} {h : α → α} {entries : Section α}
    (each : ∀ x ∈ entries.entries, f (g x) = some (h x)) :
    (section? f (sectionItem g entries) : Option (Section α)) = some (entries.map (Array.map h)) := by
  cases entries with
  | none => rfl
  | some entries =>
      have all : ∀ x ∈ entries.toList, f (g x) = some (h x) :=
        fun x member => each x (Array.mem_toList_iff.mp member)
      show orNull? _ _ _ = _
      rw [sectionItem, orNull?_plain rfl rfl]
      simp only
      rw [mapM_map_eq all, ← Array.toList_map, Option.map_some, Array.toArray_toList]
      rfl

theorem section?_sectionItem {f : Item → Option α} {g : α → Item} {entries : Section α}
    (each : ∀ x ∈ entries.entries, f (g x) = some x) : section? f (sectionItem g entries) = some entries := by
  rw [section?_map (h := id) each]
  simp

theorem section?_texts {texts : Section Text} (storable : texts.Storable Text.Storable) :
    (section? text? (sectionItem Item.ofText texts) : Option (Section Text)) = some texts := by
  apply section?_sectionItem
  exact fun t member => textOr?_ofText (storable.all t member) []

/-- An array that is left out when it is empty has its entries read in either case. -/
theorem entries_of_array {f : Item → Option α} {g : α → Item} {h : α → α} {xs : Array α}
    (each : ∀ x ∈ xs, f (g x) = some (h x)) : ∃ decoded : Section α, decoded.entries = xs.map h ∧
      (if xs.isEmpty = false then section? f (.array (xs.toList.map g)) else section? f .null) =
        some decoded := by
  cases empty : xs.isEmpty with
  | false => exact ⟨some (xs.map h), rfl, section?_map (show ∀ x ∈ Section.entries (some xs), _ from each)⟩
  | true =>
      rw [Array.isEmpty_iff.mp empty]
      exact ⟨none, by simp [Section.entries], rfl⟩

theorem sectionItem_writable {each : α → Prop} {g : α → Item} {entries : Section α}
    (storable : entries.Storable each) (inside : depth < maxDepth)
    (items : ∀ x, each x → (g x).Writable (depth + 1)) : (sectionItem g entries).Writable depth := by
  cases entries with
  | none => exact .simple (by decide)
  | some entries =>
      refine .array inside (by simpa [Section.entries] using storable.few) ?_
      intro item member
      obtain ⟨x, listed, rfl⟩ := List.mem_map.mp member
      exact items x (storable.all x (Array.mem_toList_iff.mp listed))

/-! ## Names -/

theorem namesAfter?_map {pairs : List (Int × Text)} (slots : ∀ entry ∈ pairs, IsWord entry.1)
    (texts : ∀ entry ∈ pairs, entry.2.Storable) (slot : Int) (name : Text) :
    namesAfter? slot name (pairs.map fun (slot, name) => (.int slot, .ofText name)) = some pairs := by
  induction pairs generalizing slot name with
  | nil => rfl
  | cons entry pairs ih =>
      simp only [List.forall_mem_cons] at slots texts
      rw [List.map_cons, namesAfter?, intOr?_int slots.1, Option.bind_eq_bind, Option.bind_some,
        textOr?_ofText texts.1, Option.bind_eq_bind, Option.bind_some, ih slots.2 texts.2]
      rfl

/-- The entries of a stored map of names are those of the map in some order. -/
theorem namesItem_eq (names : NameMap) : ∃ pairs : List (Int × Text), pairs.Perm names.entries ∧
    namesItem (some names) = .map (pairs.map fun (slot, name) => (.int slot, .ofText name)) := by
  refine ⟨names.entries.mergeSort fun a b => keyBefore (Item.int a.1).write (Item.int b.1).write,
    List.mergeSort_perm _ _, ?_⟩
  rw [namesItem, List.map_mergeSort (s := fun a b => keyBefore a.1.write b.1.write)]
  exact fun _ _ _ _ => rfl

theorem names?_namesItem {names : Option NameMap} (storable : NameMap.Storable (names.getD .empty)) :
    names? (namesItem names) = some names := by
  cases names with
  | none => rfl
  | some names =>
      obtain ⟨pairs, perm, item⟩ := namesItem_eq names
      show orNull? _ _ _ = _
      rw [item, orNull?_plain rfl rfl]
      simp only
      rw [namesAfter?_map (fun entry member => storable.slots entry (perm.mem_iff.mp member))
        (fun entry member => storable.texts entry (perm.mem_iff.mp member))]
      rw [Option.map_some, Dictionary.ofEntries_eq_of_perm perm]

theorem namesItem_writable {names : Option NameMap} (storable : NameMap.Storable (names.getD .empty))
    (inside : depth < maxDepth) : (namesItem names).Writable depth := by
  cases names with
  | none => exact .simple (by decide)
  | some names =>
      obtain ⟨pairs, perm, item⟩ := namesItem_eq names
      rw [item]
      refine .map inside ?_ ?_ ?_
      · rw [List.length_map, perm.length_eq]
        exact storable.few
      · intro entry member
        obtain ⟨pair, listed, rfl⟩ := List.mem_map.mp member
        exact int_writable (storable.slots pair (perm.mem_iff.mp listed))
      · intro entry member
        obtain ⟨pair, listed, rfl⟩ := List.mem_map.mp member
        exact ofText_writable (storable.texts pair (perm.mem_iff.mp listed))

/-! ## Fields -/

/-- A field as the decoder sees it. -/
def numbered (field : Nat × Item) : Option Nat × Item := (some field.1, field.2)

theorem fields?_record (fields : List (Nat × Item)) :
    fields? (record fields) = some (fields.map numbered) := by
  show orNull? _ _ _ = _
  rw [record, orNull?_plain rfl rfl]
  simp only
  induction fields with
  | nil => rfl
  | cons field fields ih =>
      rw [List.map_cons, List.mapM_cons, ih]
      rfl

theorem record_writable {fields : List (Nat × Item)} (inside : depth < maxDepth)
    (few : fields.length ≤ 8)
    (each : ∀ field ∈ fields, field.1 < 24 ∧ field.2.Writable (depth + 1)) :
    (record fields).Writable depth := by
  refine .map inside ?_ ?_ ?_
  · rw [List.length_map]
    exact Nat.le_trans few (by decide)
  · intro entry member
    obtain ⟨field, listed, rfl⟩ := List.mem_map.mp member
    exact .unsigned (Nat.lt_trans (each field listed).1 (by decide))
  · intro entry member
    obtain ⟨field, listed, rfl⟩ := List.mem_map.mp member
    exact (each field listed).2

variable {f : Item → Option α} {item : Item} {rest : List (Option Nat × Item)} {n k : Nat} {absent : Bool}

@[simp] theorem field?_nil : field? [] n f = f .null := rfl

@[simp] theorem field?_cons : field? (numbered (k, item) :: rest) n f =
    if n = k then f item else field? rest n f := by
  unfold field? numbered
  by_cases same : n = k
  · simp [same]
  · have passed : (n == k) = false := beq_eq_false_iff_ne.mpr same
    simp [List.lookup_cons, same, passed]

@[simp] theorem field?_unless_append : field? ((unless_ absent k item).map numbered ++ rest) n f =
    if n = k ∧ absent = false then f item else field? rest n f := by
  cases absent with
  | false => simp [unless_]
  | true => simp [unless_]

@[simp] theorem field?_unless : field? ((unless_ absent k item).map numbered) n f =
    if n = k ∧ absent = false then f item else f .null := by
  rw [← List.append_nil (List.map numbered _), field?_unless_append, field?_nil]

/-- A field that is left out when it holds nothing is decoded in either case. -/
theorem kept_or_left {x y : Option α} {value : α} (kept : absent = false → x = some value)
    (left : absent = true → y = some value) : (if absent = false then x else y) = some value := by
  cases absent with
  | false => exact kept rfl
  | true => exact left rfl

/-! ## Structures -/

theorem line?_lineItem {e : LineEntry} (storable : e.Storable) : line? (lineItem e) = some e := by
  simp [line?, lineItem, fields?_record, int?, intOr?_int storable.offset,
    intOr?_int storable.line]

theorem clause?_clauseItem {c : CatchClause} (storable : c.Storable) :
    clause? (clauseItem c) = some c := by
  simp [clause?, clauseItem, fields?_record, int?, intOr?_int storable.entry,
    intOr?_int storable.errorType, intOr?_int storable.slot]

theorem region?_regionItem {r : TryRegion} (storable : r.Storable) :
    region? (regionItem r) = some r := by
  have catches := section?_sectionItem fun c member => clause?_clauseItem (storable.catches.all c member)
  simp [region?, regionItem, fields?_record, int?, catches, intOr?_int storable.elseEntry]

theorem capture?_captureItem {c : Capture} (storable : c.Storable) :
    capture? (captureItem c) = some c := by
  simp [capture?, captureItem, fields?_record, int?, text?,
    textOr?_ofText storable.name, intOr?_int storable.depth, intOr?_int storable.source,
    intOr?_int storable.target]

theorem eq_zero_of_isZero {x : Number} (zero : x.isZero = true) (positive : x ≠ .negativeZero) :
    x = .zero := by
  have word := x.ofMagnitude_magnitude
  rw [Number.isZero_iff.mp zero] at word
  cases sign : x.isNegative with
  | true =>
      rw [sign] at word
      exact absurd word.symm positive
  | false =>
      rw [sign] at word
      rw [← word]
      rfl

theorem constant?_constantItem {k : Constant} (storable : k.Storable) :
    constant? (constantItem k) = some k := by
  have number : (if k.number.isZero = false then number? (.float k.number) else number? .null) =
      some k.number :=
    kept_or_left (fun _ => number?_float k.number) fun zero => by
      rw [eq_zero_of_isZero zero storable.number]
      rfl
  have text : (if k.text.isEmpty = false then text? (.ofText k.text) else text? .null) = some k.text :=
    kept_or_left (fun _ => textOr?_ofText storable.text []) fun empty => by
      rw [List.isEmpty_iff.mp empty]
      rfl
  have flag : (if (!k.flag) = false then bool? (.bool k.flag) else bool? .null) = some k.flag :=
    kept_or_left (fun _ => bool?_bool k.flag) fun off => by
      rw [Bool.not_eq_eq_eq_not.mp off]
      rfl
  have index : (if (k.index == 0) = false then int? (.int k.index) else int? .null) = some k.index :=
    kept_or_left (fun _ => intOr?_int storable.index 0) fun zero => by
      rw [beq_iff_eq.mp zero]
      rfl
  simp only [constantItem, constant?, fields?_record, Option.bind_eq_bind, Option.bind_some,
    List.map_append, List.map_cons, List.append_assoc, List.cons_append, List.nil_append, field?_cons,
    field?_unless_append, field?_unless, if_true, if_false, Nat.reduceEqDiff,
    false_and, true_and, byte?_unsigned, number, text, flag, index]

theorem code?_codeItem (code : Section UInt8) : code? (codeItem code) = some code := by
  cases code with
  | none => rfl
  | some code => simp [codeItem, code?, untag?]

theorem chunk?_chunkItem {c : Chunk} (storable : c.Storable) : chunk? (chunkItem c) = some c := by
  have version : intWithin? 0 65535 (.unsigned c.version.toNat) = some (c.version.toNat : Int) :=
    intWithin?_unsigned (by have small := c.version.toNat_lt; omega)
  have constants := section?_sectionItem fun k member =>
    constant?_constantItem (storable.constants.all k member)
  have lines := section?_sectionItem fun e member => line?_lineItem (storable.lines.all e member)
  have regions := section?_sectionItem fun r member => region?_regionItem (storable.regions.all r member)
  have errorTypes := section?_texts storable.errorTypes
  have globals := names?_namesItem storable.globals
  have explicit := names?_namesItem storable.explicit
  simp [chunk?, chunkItem, fields?_record, version, code?_codeItem, constants, lines, regions, globals,
    explicit, errorTypes]

theorem option?_optionItem {g : α → Item} {x y : α} (present : (g x).isNull = false)
    (decoded : f (g x) = some y) : option? f (optionItem g (some x)) = some (some y) := by
  simp [option?, optionItem, present, decoded]

theorem function?_functionItem {fn : Function} (storable : fn.Storable) :
    function? (functionItem fn) = some fn.trimmed := by
  obtain ⟨chunk, present, chunkStorable⟩ := storable.chunk
  have params : (if fn.params.entries.isEmpty = false then (section? text?
      (sectionItem Item.ofText fn.params) : Option (Section Text)) else some none) =
      some fn.trimmed.params := by
    apply kept_or_left
    · intro some_
      rw [section?_texts storable.params, Function.trimmed, some_]
      rfl
    · intro none_
      rw [Function.trimmed, none_]
      rfl
  have each : ∀ c ∈ fn.captures, capture? (captureItem c) = some (id c) :=
    fun c member => capture?_captureItem (storable.captures.all c member)
  obtain ⟨captured, same, captures⟩ := entries_of_array each
  rw [Array.map_id] at same
  have cacheable : (if (!fn.cacheable) = false then bool? (.bool fn.cacheable) else bool? .null) =
      some fn.cacheable :=
    kept_or_left (fun _ => bool?_bool fn.cacheable) fun off => by
      rw [Bool.not_eq_eq_eq_not.mp off]
      rfl
  have chunk_ : option? chunk? (optionItem chunkItem fn.chunk) = some fn.chunk := by
    rw [present]
    exact option?_optionItem rfl (chunk?_chunkItem chunkStorable)
  have none_ : (section? text? .null : Option (Section Text)) = some none := rfl
  simp only [functionItem, function?, fields?_record, Option.bind_eq_bind, Option.bind_some,
    List.map_append, List.map_cons, List.append_assoc, List.cons_append, List.nil_append, field?_cons,
    field?_unless_append, field?_unless, if_true, if_false, Nat.reduceEqDiff, false_and, true_and, text?,
    int?, textOr?_ofText storable.name, intOr?_int storable.arity, none_, params, captures, chunk_,
    cacheable, same]
  rfl

theorem program?_programItem {p : Program} (storable : p.Storable) : program? (programItem p) =
    some { p with functions := p.functions.map (Option.map Function.trimmed) } := by
  obtain ⟨main, present, mainStorable⟩ := storable.main
  have main_ : option? chunk? (optionItem chunkItem p.main) = some p.main := by
    rw [present]
    exact option?_optionItem rfl (chunk?_chunkItem mainStorable)
  have each : ∀ entry ∈ p.functions, option? function? (optionItem functionItem entry) =
      some (entry.map Function.trimmed) := by
    intro entry member
    obtain ⟨fn, rfl, fnStorable⟩ := storable.functions entry member
    exact option?_optionItem rfl (function?_functionItem fnStorable)
  obtain ⟨decoded, same, functions⟩ := entries_of_array each
  simp only [programItem, program?, fields?_record, Option.bind_eq_bind, Option.bind_some,
    List.map_cons, List.cons_append, List.nil_append, field?_cons, field?_unless,
    if_true, if_false, Nat.reduceEqDiff, false_and, true_and, main_, functions, same]

end Wire

end TableMachine
