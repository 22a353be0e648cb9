import TableMachine.Proofs.Decoding
import TableMachine.Wire.Artifact

/-! # A stored program is loaded again

What is loaded is the program that was stored, up to three things that the stored form does not keep: name
maps are always present, empty parameter names are absent, and all words that are not a number become one.
The last of them happens on writing, so a program is written as the one with its words made one already is;
of that program every item is read back as it is.
-/

namespace TableMachine

/-! ## What is kept -/

def Number.asStored (x : Number) : Number := if x.isNaN then nan else x

def Constant.asStored (k : Constant) : Constant := { k with number := k.number.asStored }

def Chunk.asStored (c : Chunk) : Chunk :=
  { c with
    constants := c.constants.map (Array.map Constant.asStored)
    globals := some c.globalNames
    explicit := some c.explicitNames }

def Function.asStored (f : Function) : Function := { f.trimmed with chunk := f.chunk.map Chunk.asStored }

/-- The program that is loaded when `p` was stored. -/
def Program.asStored (p : Program) : Program where
  main := p.main.map Chunk.asStored
  functions := p.functions.map (Option.map Function.asStored)

/-- The chunk as it is written. -/
def Chunk.asWritten (c : Chunk) : Chunk :=
  { c with constants := c.constants.map (Array.map Constant.asStored) }

def Function.asWritten (f : Function) : Function := { f with chunk := f.chunk.map Chunk.asWritten }

def Program.asWritten (p : Program) : Program where
  main := p.main.map Chunk.asWritten
  functions := p.functions.map (Option.map Function.asWritten)

theorem Number.eq_nan_of_asStored (x : Number) (nan_ : x.asStored.isNaN = true) : x.asStored = nan := by
  unfold asStored at nan_ ⊢
  split
  · rfl
  · rename_i number
    rw [if_neg number] at nan_
    exact absurd nan_ number

theorem Number.asStored_eq_negativeZero {x : Number} (same : x.asStored = negativeZero) :
    x = negativeZero := by
  unfold asStored at same
  split at same
  · exact absurd same (by decide)
  · exact same

theorem Constant.Storable.asStored {k : Constant} (storable : k.Storable) : k.asStored.Storable where
  number := fun same => storable.number (Number.asStored_eq_negativeZero same)
  text := storable.text
  index := storable.index

theorem Section.Storable.map {α : Type} {each other : α → Prop} {h : α → α} {entries : Section α}
    (storable : entries.Storable each) (kept : ∀ x, each x → other (h x)) :
    Section.Storable other (Option.map (Array.map h) entries) := by
  cases entries with
  | none => exact ⟨Nat.zero_le _, by simp [Section.entries]⟩
  | some entries =>
      refine ⟨?_, ?_⟩
      · have few := storable.few
        simpa [Section.entries] using few
      · intro y member
        obtain ⟨x, listed, rfl⟩ := Array.mem_map.mp member
        exact kept x (storable.all x listed)

theorem Chunk.Storable.asWritten {c : Chunk} (storable : c.Storable) : c.asWritten.Storable where
  code := storable.code
  constants := storable.constants.map fun _ constant => constant.asStored
  lines := storable.lines
  regions := storable.regions
  globals := storable.globals
  explicit := storable.explicit
  errorTypes := storable.errorTypes

theorem Function.Storable.asWritten {f : Function} (storable : f.Storable) : f.asWritten.Storable where
  name := storable.name
  arity := storable.arity
  params := storable.params
  captures := storable.captures
  chunk := by
    obtain ⟨chunk, present, chunkStorable⟩ := storable.chunk
    exact ⟨chunk.asWritten, by simp [Function.asWritten, present], chunkStorable.asWritten⟩

theorem Program.Storable.asWritten {p : Program} (storable : p.Storable) : p.asWritten.Storable where
  main := by
    obtain ⟨main, present, mainStorable⟩ := storable.main
    exact ⟨main.asWritten, by simp [Program.asWritten, present], mainStorable.asWritten⟩
  few := by
    simpa [Program.asWritten] using storable.few
  functions := by
    intro entry member
    obtain ⟨given, listed, rfl⟩ := Array.mem_map.mp member
    obtain ⟨f, rfl, functionStorable⟩ := storable.functions given listed
    exact ⟨f.asWritten, rfl, functionStorable.asWritten⟩

namespace Wire

open Item

variable {depth : Nat}

/-! ## Writing -/

theorem write_record (fields : List (Nat × Item)) : (record fields).write =
    head 5 fields.length ++ fields.flatMap fun field => head 0 field.1 ++ field.2.write := by
  rw [record, write, List.length_map]
  congr 1
  induction fields with
  | nil => rfl
  | cons field fields ih => simp [writeEntries, write, ih]

theorem write_array_congr {α : Type} {g : α → Item} {h : α → α} {xs : List α}
    (same : ∀ x ∈ xs, (g (h x)).write = (g x).write) :
    (Item.array ((xs.map h).map g)).write = (Item.array (xs.map g)).write := by
  rw [write, write, List.length_map, List.length_map, List.length_map]
  congr 1
  induction xs with
  | nil => rfl
  | cons x xs ih =>
      simp only [List.map_cons, writeAll]
      rw [same x List.mem_cons_self, ih fun y member => same y (List.mem_cons_of_mem x member)]

theorem write_float_asStored (x : Number) : (Item.float x.asStored).write = (Item.float x).write := by
  unfold Number.asStored
  split
  · rename_i nan
    rw [write, write, writeFloat, writeFloat, if_pos nan, if_pos (by decide)]
  · rfl

theorem isZero_asStored (x : Number) : x.asStored.isZero = x.isZero := by
  unfold Number.asStored
  split
  · rename_i nan
    simp only [Number.isNaN, decide_eq_true_eq] at nan
    have positive : x.magnitude ≠ 0 := Nat.ne_of_gt (Nat.zero_lt_of_lt nan)
    rw [Bool.eq_iff_iff, Number.isZero_iff, Number.isZero_iff]
    exact ⟨fun zero => absurd zero (by decide), fun zero => absurd zero positive⟩
  · rfl

theorem write_constantItem (k : Constant) : (constantItem k.asStored).write = (constantItem k).write := by
  simp only [constantItem, Constant.asStored, write_record, isZero_asStored, List.flatMap_append,
    List.length_append, unless_]
  cases k.number.isZero with
  | true => rfl
  | false => simp [write_float_asStored]

theorem write_optionItem {α : Type} {g : α → Item} {h : α → α}
    (same : ∀ x, (g (h x)).write = (g x).write) (x : Option α) :
    (optionItem g (x.map h)).write = (optionItem g x).write := by
  cases x with
  | none => rfl
  | some x => exact same x

section

variable {g : Constant → Constant} {h : Chunk → Chunk} {k : Function → Function}

/-- Whatever leaves the bytes of the parts alone leaves those of the whole alone. -/
theorem write_chunkItem_of (same : ∀ k, (constantItem (g k)).write = (constantItem k).write)
    (c : Chunk) : (chunkItem { c with constants := c.constants.map (Array.map g) }).write =
      (chunkItem c).write := by
  have constants : (sectionItem constantItem (c.constants.map (Array.map g))).write =
      (sectionItem constantItem c.constants).write := by
    cases c.constants with
    | none => rfl
    | some constants =>
        simp only [Option.map_some, sectionItem, Array.toList_map]
        exact write_array_congr fun k _ => same k
  simp only [chunkItem, write_record, List.flatMap_cons, constants]
  rfl

theorem write_functionItem_of (same : ∀ c, (chunkItem (h c)).write = (chunkItem c).write)
    (f : Function) : (functionItem { f with chunk := f.chunk.map h }).write = (functionItem f).write := by
  simp only [functionItem, write_record, List.flatMap_append, List.flatMap_cons, write_optionItem same,
    List.length_append, List.length_cons]

theorem write_programItem_of (same : ∀ c, (chunkItem (h c)).write = (chunkItem c).write)
    (same' : ∀ f, (functionItem (k f)).write = (functionItem f).write) (p : Program) :
    (programItem ⟨p.main.map h, p.functions.map (Option.map k)⟩).write = (programItem p).write := by
  have empty : (p.functions.map (Option.map k)).isEmpty = p.functions.isEmpty := by
    rw [Array.isEmpty, Array.isEmpty, Array.size_map]
  have functions : (Item.array ((p.functions.toList.map (Option.map k)).map
      (optionItem functionItem))).write = _ :=
    write_array_congr fun entry _ => write_optionItem same' entry
  simp only [programItem, write_record, List.flatMap_append, List.flatMap_cons, List.length_append,
    List.length_cons, write_optionItem same, unless_, empty, Array.toList_map]
  cases p.functions.isEmpty with
  | true => rfl
  | false =>
      simp only [Bool.false_eq_true, if_false, List.flatMap_cons, functions]
      rfl

end

theorem write_chunkItem (c : Chunk) : (chunkItem c.asWritten).write = (chunkItem c).write :=
  write_chunkItem_of write_constantItem c

theorem write_functionItem (f : Function) :
    (functionItem f.asWritten).write = (functionItem f).write :=
  write_functionItem_of write_chunkItem f

theorem write_programItem (p : Program) :
    (programItem p.asWritten).write = (programItem p).write :=
  write_programItem_of write_chunkItem write_functionItem p

/-! ## What can be written -/

theorem length_unless_le (absent : Bool) (number : Nat) (item : Item) :
    (unless_ absent number item).length ≤ 1 := by
  cases absent <;> simp [unless_]

theorem forall_unless {absent : Bool} {number : Nat} {item : Item} {property : Nat × Item → Prop}
    (holds : property (number, item)) : ∀ field ∈ unless_ absent number item, property field := by
  cases absent with
  | true => simp [unless_]
  | false => simpa [unless_] using holds

theorem constantItem_writable {k : Constant} (storable : k.Storable)
    (canonical : k.number.isNaN = true → k.number = .nan) (inside : depth < maxDepth) :
    (constantItem k).Writable depth := by
  have tag : (Item.unsigned k.tag.toNat).Writable (depth + 1) :=
    .unsigned (Nat.lt_trans k.tag.toNat_lt (by decide))
  apply record_writable inside
  · have number := length_unless_le k.number.isZero 2 (.float k.number)
    have text := length_unless_le k.text.isEmpty 3 (.ofText k.text)
    have flag := length_unless_le (!k.flag) 4 (.bool k.flag)
    have index := length_unless_le (k.index == 0) 5 (.int k.index)
    simp only [List.length_append, List.length_cons, List.length_nil]
    omega
  · simp only [List.forall_mem_append]
    exact ⟨⟨⟨⟨by simp [tag], forall_unless ⟨by simp, .float canonical⟩⟩,
      forall_unless ⟨by simp, ofText_writable storable.text⟩⟩,
      forall_unless ⟨by simp, bool_writable k.flag⟩⟩, forall_unless ⟨by simp, int_writable storable.index⟩⟩

theorem lineItem_writable {e : LineEntry} (storable : e.Storable) (inside : depth < maxDepth) :
    (lineItem e).Writable depth := by
  apply record_writable inside
  · simp
  · simp [int_writable storable.offset, int_writable storable.line]

theorem clauseItem_writable {c : CatchClause} (storable : c.Storable) (inside : depth < maxDepth) :
    (clauseItem c).Writable depth := by
  apply record_writable inside
  · simp
  · simp [int_writable storable.entry, int_writable storable.errorType, int_writable storable.slot]

theorem regionItem_writable {r : TryRegion} (storable : r.Storable) (inside : depth + 2 < maxDepth) :
    (regionItem r).Writable depth := by
  have catches : (sectionItem clauseItem r.catches).Writable (depth + 1) :=
    sectionItem_writable storable.catches (by omega) fun c clause => clauseItem_writable clause inside
  apply record_writable (by omega)
  · simp
  · simp [catches, int_writable storable.elseEntry]

theorem captureItem_writable {c : Capture} (storable : c.Storable) (inside : depth < maxDepth) :
    (captureItem c).Writable depth := by
  apply record_writable inside
  · simp
  · simp [ofText_writable storable.name, int_writable storable.depth, int_writable storable.source,
      int_writable storable.target]

theorem codeItem_writable {code : Section UInt8} (length : code.entries.size ≤ maxLength) :
    (codeItem code).Writable depth := by
  cases code with
  | none => exact .simple (by decide)
  | some code => exact .bytes (by simpa [Section.entries] using length)

theorem chunkItem_writable {c : Chunk} (storable : c.Storable) (inside : depth + 4 < maxDepth) :
    (chunkItem c.asWritten).Writable depth := by
  have version : (Item.unsigned c.version.toNat).Writable (depth + 1) :=
    .unsigned (Nat.lt_trans c.version.toNat_lt (by decide))
  have canonical : Section.Storable
      (fun k : Constant => k.Storable ∧ (k.number.isNaN = true → k.number = .nan))
      c.asWritten.constants :=
    storable.constants.map fun k constant => ⟨constant.asStored, k.number.eq_nan_of_asStored⟩
  have constants : (sectionItem constantItem c.asWritten.constants).Writable (depth + 1) :=
    sectionItem_writable canonical (by omega) fun k constant =>
      constantItem_writable constant.1 constant.2 (by omega)
  have lines : (sectionItem lineItem c.lines).Writable (depth + 1) :=
    sectionItem_writable storable.lines (by omega) fun e line => lineItem_writable line (by omega)
  have regions : (sectionItem regionItem c.regions).Writable (depth + 1) :=
    sectionItem_writable storable.regions (by omega) fun r region => regionItem_writable region inside
  have errorTypes : (sectionItem Item.ofText c.errorTypes).Writable (depth + 1) :=
    sectionItem_writable storable.errorTypes (by omega) fun t text => ofText_writable text
  have globals : (namesItem c.globals).Writable (depth + 1) :=
    namesItem_writable storable.globals (by omega)
  have explicit : (namesItem c.explicit).Writable (depth + 1) :=
    namesItem_writable storable.explicit (by omega)
  apply record_writable (by omega)
  · simp
  · simp [Chunk.asWritten] at constants ⊢
    exact ⟨version, codeItem_writable storable.code, constants, lines, regions, globals, explicit,
      errorTypes⟩

theorem functionItem_writable {f : Function} (storable : f.Storable) (inside : depth + 5 < maxDepth) :
    (functionItem f.asWritten).Writable depth := by
  obtain ⟨chunk, present, chunkStorable⟩ := storable.chunk
  have chunk_ : (optionItem chunkItem f.asWritten.chunk).Writable (depth + 1) := by
    rw [Function.asWritten, present]
    exact chunkItem_writable chunkStorable (by omega)
  have params : (sectionItem Item.ofText f.params).Writable (depth + 1) :=
    sectionItem_writable storable.params (by omega) fun t text => ofText_writable text
  have captures : (Item.array (f.captures.toList.map captureItem)).Writable (depth + 1) :=
    sectionItem_writable storable.captures (by omega) fun c capture => captureItem_writable capture (by omega)
  apply record_writable (by omega)
  · have params := length_unless_le f.params.entries.isEmpty 3 (sectionItem Item.ofText f.params)
    have captures := length_unless_le f.captures.isEmpty 4 (.array (f.captures.toList.map captureItem))
    have flag := length_unless_le (!f.cacheable) 6 (.bool f.cacheable)
    simp only [Function.asWritten, List.length_append, List.length_cons, List.length_nil]
    omega
  · simp only [List.forall_mem_append]
    exact ⟨⟨⟨⟨by simp [Function.asWritten, ofText_writable storable.name, int_writable storable.arity],
      forall_unless ⟨by simp, params⟩⟩, forall_unless ⟨by simp, captures⟩⟩, by simp [chunk_]⟩,
      forall_unless ⟨by simp, bool_writable _⟩⟩

theorem programItem_writable {p : Program} (storable : p.Storable) :
    (programItem p.asWritten).Writable 0 := by
  obtain ⟨main, present, mainStorable⟩ := storable.main
  have main_ : (optionItem chunkItem p.asWritten.main).Writable 1 := by
    rw [Program.asWritten, present]
    exact chunkItem_writable mainStorable (by decide)
  have functions : (Item.array (p.asWritten.functions.toList.map (optionItem functionItem))).Writable 1 := by
    apply Item.Writable.array (by decide)
    · simpa [Program.asWritten] using storable.few
    · intro item member
      obtain ⟨entry, written, rfl⟩ := List.mem_map.mp member
      obtain ⟨given, listed, rfl⟩ := Array.mem_map.mp (Array.mem_toList_iff.mp written)
      obtain ⟨f, rfl, functionStorable⟩ := storable.functions given listed
      exact functionItem_writable functionStorable (by decide)
  apply record_writable (by decide)
  · have functions := length_unless_le p.asWritten.functions.isEmpty 2
      (.array (p.asWritten.functions.toList.map (optionItem functionItem)))
    simp only [List.length_append, List.length_cons, List.length_nil]
    omega
  · simp only [List.forall_mem_append]
    exact ⟨by simp [main_], forall_unless ⟨by simp, functions⟩⟩

end Wire

/-! ## Loading -/

namespace Artifact

theorem completeFunctions_map {functions : List (Option Function)} {g h : Function → Function}
    (each : ∀ entry ∈ functions, ∃ f, entry = some f ∧ completeFunction? (some (g f)) = some (h f))
    (position : Nat) : completeFunctions position (functions.map (Option.map g)) =
      .ok (functions.map (Option.map h)) := by
  induction functions generalizing position with
  | nil => rfl
  | cons entry functions ih =>
      obtain ⟨f, rfl, completed⟩ := each _ List.mem_cons_self
      simp only [List.map_cons, Option.map_some, completeFunctions, completed]
      rw [ih fun entry member => each entry (List.mem_cons_of_mem _ member)]
      rfl

theorem load_of_read {body : Text} {p : Program}
    (decoded : (Wire.read? body).bind Wire.program? = some p) :
    load (mark ++ versionBytes Chunk.currentVersion ++ body) = complete p := by
  have long : ¬ (mark ++ versionBytes Chunk.currentVersion ++ body).length < 6 := by
    simp [mark, versionBytes]
  have rest : (mark ++ versionBytes Chunk.currentVersion ++ body).drop 6 = body := rfl
  unfold load
  rw [if_neg long, rest, decoded]
  rfl

theorem completeFunction?_trimmed {f : Function} (storable : f.Storable) :
    completeFunction? (some f.asWritten.trimmed) = some f.asStored := by
  obtain ⟨chunk, present, _⟩ := storable.chunk
  simp [completeFunction?, Function.trimmed, Function.asWritten, Function.asStored, present]
  rfl

theorem complete_trimmed {p : Program} (storable : p.Storable) :
    complete { p.asWritten with functions := p.asWritten.functions.map (Option.map Function.trimmed) } =
      .ok p.asStored := by
  obtain ⟨main, present, _⟩ := storable.main
  have functions : completeFunctions 0
      (p.functions.toList.map (Option.map (Function.trimmed ∘ Function.asWritten))) =
      .ok (p.functions.toList.map (Option.map Function.asStored)) := by
    apply completeFunctions_map
    intro entry member
    obtain ⟨f, rfl, functionStorable⟩ := storable.functions entry (Array.mem_toList_iff.mp member)
    exact ⟨f, rfl, completeFunction?_trimmed functionStorable⟩
  simp only [complete, Program.asWritten, present, Option.map_some, Array.toList_map, List.map_map,
    Option.map_comp_map, functions]
  show Except.ok (Program.mk _ (List.toArray _)) = _
  rw [Program.asStored, present, ← Array.toList_map, Array.toArray_toList]
  rfl

/-- The bytes of a program. -/
def bytes (p : Program) : Text :=
  mark ++ versionBytes Chunk.currentVersion ++ (Wire.programItem p).write

theorem store_of_main {p : Program} {main : Chunk} (present : p.main = some main) :
    store p = .ok (bytes p) := by
  rw [store, present]
  rfl

theorem load_bytes {p : Program} (storable : p.Storable) : load (bytes p) = .ok p.asStored := by
  have read := Wire.read?_write (Wire.programItem_writable storable)
  have decoded := Wire.program?_programItem storable.asWritten
  rw [bytes, ← Wire.write_programItem p, load_of_read (by rw [read, Option.bind_some, decoded])]
  exact complete_trimmed storable

/-- Storing a program gives bytes, and loading them gives the program. -/
theorem load_store (p : Program) (storable : p.Storable) :
    ∃ data, store p = .ok data ∧ load data = .ok p.asStored := by
  obtain ⟨main, present, _⟩ := storable.main
  exact ⟨bytes p, store_of_main present, load_bytes storable⟩

end Artifact

/-! ## A program to store

It has what the stored form does not keep: a name map is absent, parameter names are empty, and a number
is not one. The slots -1 and 0 of the other map are stored in the other order: the shorter and smaller
encoding first.
-/

namespace Parcel

def main : Chunk :=
  { Chunk.empty with
    code := some #[0x02, 0, 0, 0x51]
    constants := some #[Literal.constant (.number ⟨0x7FF8000000000001⟩), Literal.constant (.number ⟨1⟩),
      Literal.constant (.string [0xC3, 0xA9])]
    lines := some #[⟨0, -7⟩]
    regions := some #[⟨some #[⟨3, noIndex, 0⟩], noIndex⟩]
    globals := none
    explicit := some ⟨[(-1, [0x61]), (0, [0x62]), (24, [0x63]), (256, [0x64])], by decide⟩ }

def function : Function := ⟨[0x66], 1, some #[], #[⟨[0x78], 0, 1, 0⟩], true, some Chunk.empty⟩

def program : Program := ⟨some main, #[some function]⟩

private theorem storable_of_list {α : Type} {each : α → Prop} {xs : List α}
    (few : xs.length ≤ Wire.maxEntries) (all : ∀ x ∈ xs, each x) :
    Section.Storable each (some xs.toArray) :=
  ⟨by simpa [Section.entries] using few, by simpa [Section.entries] using all⟩

theorem main_storable : main.Storable where
  code := by decide
  constants := by
    apply storable_of_list (by decide)
    simp only [List.forall_mem_cons]
    exact ⟨⟨by decide, ⟨rfl, by decide⟩, by decide⟩, ⟨by decide, ⟨rfl, by decide⟩, by decide⟩,
      ⟨by decide, ⟨rfl, by decide⟩, by decide⟩, by simp⟩
  lines := by
    apply storable_of_list (by decide)
    simpa using ⟨by decide, by decide⟩
  regions := by
    apply storable_of_list (by decide)
    simp only [List.forall_mem_singleton]
    refine ⟨storable_of_list (by decide) ?_, by decide⟩
    simpa using ⟨by decide, by decide, by decide⟩
  globals := ⟨by decide, by simp [Chunk.globalNames, main], by simp [Chunk.globalNames, main]⟩
  explicit := by
    refine ⟨by decide, by decide, ?_⟩
    simp only [Chunk.explicitNames, main, Option.getD_some, List.forall_mem_cons]
    exact ⟨⟨rfl, by decide⟩, ⟨rfl, by decide⟩, ⟨rfl, by decide⟩, ⟨rfl, by decide⟩, by simp⟩
  errorTypes := ⟨by decide, by simp [main, Chunk.empty, Section.entries]⟩

theorem function_storable : function.Storable where
  name := ⟨rfl, by decide⟩
  arity := by decide
  params := ⟨by decide, by simp [function, Section.entries]⟩
  captures := by
    apply storable_of_list (by decide)
    simpa using ⟨⟨rfl, by decide⟩, by decide, by decide, by decide⟩
  chunk := by
    have names : NameMap.Storable .empty := ⟨by decide, by simp, by simp⟩
    exact ⟨Chunk.empty, rfl, by decide, storable_of_list (by decide) (by simp),
      ⟨by decide, by simp [Chunk.empty, Section.entries]⟩,
      ⟨by decide, by simp [Chunk.empty, Section.entries]⟩, names, names,
      ⟨by decide, by simp [Chunk.empty, Section.entries]⟩⟩

theorem storable : program.Storable where
  main := ⟨main, rfl, main_storable⟩
  few := by decide
  functions := by simpa [program] using function_storable

end Parcel

namespace Artifact

theorem load_store_of_parcel :
    ∃ data, store Parcel.program = .ok data ∧ load data = .ok Parcel.program.asStored ∧
      Parcel.program.asStored ≠ Parcel.program := by
  obtain ⟨data, stored, loaded⟩ := load_store Parcel.program Parcel.storable
  refine ⟨data, stored, loaded, fun same => ?_⟩
  have globals : some (some Dictionary.empty) = some none := congrArg (fun p => p.main.map (·.globals)) same
  cases globals

end Artifact

end TableMachine
