import TableMachine.Proofs.Loading
import TableMachine.Proofs.Storing

/-! # A loaded program has one stored form

The reader takes many spellings of one program: numbers in more bytes than needed, lengths that an end
mark ends, fields that are named by texts or given twice. Whatever it was loaded from, a program can be
stored, and what is loaded from there is the program again, up to what the stored form does not keep: the
sign of zero, the bits of what is not a number, and whether an empty list of parameter names is present.
Storing that program gives the same bytes.
-/

namespace TableMachine

/-! ## Texts in pieces -/

namespace Text

variable {a : UInt8} {rest text : Text} {code extra skip : Nat}

private theorem head?_append (more : Text) (found : Rune.head? a rest = some (code, extra)) :
    Rune.head? a (rest ++ more) = some (code, extra) ∧ extra ≤ rest.length := by
  unfold Rune.head? at found ⊢
  split at found
  · rename_i low
    cases found
    rw [if_pos low]
    exact ⟨rfl, Nat.zero_le _⟩
  · rename_i high
    rw [if_neg high]
    split at found
    · rename_i two
      rw [if_pos two]
      cases rest with
      | nil => cases found
      | cons b rest =>
          simp only [Option.ite_none_right_eq_some, Option.some.injEq, Prod.mk.injEq] at found
          obtain ⟨tail, rfl, rfl⟩ := found
          simp [tail]
    · rename_i notTwo
      rw [if_neg notTwo]
      split at found
      · rename_i three
        rw [if_pos three]
        match rest, found with
        | b :: c :: rest, found =>
          simp only [Option.ite_none_right_eq_some, Option.some.injEq, Prod.mk.injEq] at found
          obtain ⟨tail, rfl, rfl⟩ := found
          simp [tail]
      · rename_i notThree
        rw [if_neg notThree]
        match rest, found with
        | b :: c :: d :: rest, found =>
          simp only [Option.ite_none_right_eq_some, Option.some.injEq, Prod.mk.injEq] at found
          obtain ⟨tail, rfl, rfl⟩ := found
          simp [tail]

/-- A well-formed text ends with a code point, so what follows it is read from its beginning. -/
private theorem runesFrom_append (more : Text)
    (points : (runesFrom skip text).all fun | .point _ => true | .stray _ => false)
    (inside : skip ≤ text.length) : runesFrom skip (text ++ more) = runesFrom skip text ++ more.runes := by
  induction text generalizing skip with
  | nil =>
      obtain rfl := Nat.le_zero.mp inside
      rfl
  | cons a rest ih =>
      cases skip with
      | succ skip => exact ih points (Nat.le_of_succ_le_succ inside)
      | zero =>
          cases found : Rune.head? a rest with
          | none => simp [runesFrom, found] at points
          | some entry =>
              obtain ⟨code, extra⟩ := entry
              obtain ⟨again, short⟩ := head?_append more found
              simp only [runesFrom, found, List.all_cons, Bool.true_and] at points
              simp only [List.cons_append, runesFrom, found, again, ih points short]

theorem isUtf8_flatten {pieces : List Text} (each : pieces.all isUtf8) : isUtf8 pieces.flatten := by
  induction pieces with
  | nil => rfl
  | cons piece pieces ih =>
      simp only [List.all_cons, Bool.and_eq_true] at each
      have joined := runesFrom_append pieces.flatten each.1 (Nat.zero_le _)
      simp only [isUtf8, runes, List.flatten_cons, joined, List.all_append, Bool.and_eq_true]
      exact ⟨each.1, ih each.2⟩

end Text

/-! ## What the stored form does not keep -/

/-- The number that is loaded where `x` was stored. -/
def Number.recoded (x : Number) : Number := if x.isNaN then nan else if x.isZero then zero else x

def Constant.recoded (k : Constant) : Constant := { k with number := k.number.recoded }

def Chunk.recoded (c : Chunk) : Chunk :=
  { c with constants := c.constants.map (Array.map Constant.recoded) }

/-- Empty parameter names become absent. -/
def Function.recoded (f : Function) : Function :=
  { f with
    params := if f.params.entries.isEmpty then none else f.params
    chunk := f.chunk.map Chunk.recoded }

/-- The program up to the sign of zero, the bits of what is not a number, and empty parameter names. -/
def Program.recoded (p : Program) : Program where
  main := p.main.map Chunk.recoded
  functions := p.functions.map (Option.map Function.recoded)

theorem Number.isZero_recoded (x : Number) : x.recoded.isZero = x.isZero := by
  unfold recoded
  split
  · rename_i nan_
    have stored := Wire.isZero_asStored x
    rwa [asStored, if_pos nan_] at stored
  · split
    · rename_i zero_
      exact zero_.symm
    · rfl

theorem Number.asStored_recoded (x : Number) : x.recoded.asStored = x.recoded := by
  unfold recoded asStored
  split
  · rfl
  · split
    · rfl
    · rfl

theorem Number.recoded_ne_negativeZero (x : Number) : x.recoded ≠ negativeZero := by
  unfold recoded
  split
  · decide
  · split
    · decide
    · rename_i nonzero
      rintro rfl
      exact nonzero rfl

namespace Wire

open Item

variable {item : Item} {limit : Nat} {i : Int} {t : Text}

/-! ## The same bytes -/

theorem write_float_recoded (x : Number) (nonzero : x.isZero = false) :
    (Item.float x.recoded).write = (Item.float x).write := by
  have stored := write_float_asStored x
  unfold Number.asStored at stored
  unfold Number.recoded
  rwa [nonzero]

theorem write_constantItem_recoded (k : Constant) :
    (constantItem k.recoded).write = (constantItem k).write := by
  simp only [constantItem, Constant.recoded, write_record, Number.isZero_recoded, List.flatMap_append,
    List.length_append, unless_]
  cases nonzero : k.number.isZero with
  | true => rfl
  | false => simp [write_float_recoded k.number nonzero]

theorem functionItem_trimmed (f : Function) : functionItem f.trimmed = functionItem f := by
  unfold functionItem Function.trimmed
  cases empty : f.params.entries.isEmpty with
  | true => rfl
  | false => simp [empty]

theorem write_functionItem_recoded (f : Function) :
    (functionItem f.recoded).write = (functionItem f).write := by
  have chunk := write_functionItem_of (write_chunkItem_of write_constantItem_recoded) f
  rw [← functionItem_trimmed] at chunk
  exact chunk

theorem write_programItem_recoded (p : Program) :
    (programItem p.recoded).write = (programItem p).write :=
  write_programItem_of (write_chunkItem_of write_constantItem_recoded) write_functionItem_recoded p

/-! ## What is decoded can be stored -/

theorem intOr?_word {absent : Int} (word : IsWord absent) (done : intOr? absent item = some i) :
    IsWord i := by
  rcases orNull?_eq_some done with rfl | ⟨inner, _, done⟩
  · exact word
  · obtain ⟨j, _, done⟩ := Option.bind_eq_some_iff.mp done
    simp only [Bool.and_eq_true, decide_eq_true_eq, Option.ite_none_right_eq_some,
      Option.some.injEq] at done
    obtain ⟨within_, rfl⟩ := done
    exact within_

theorem isWord_zero : IsWord 0 := by decide

theorem textOr?_storable {absent : Text} (storable : absent.Storable)
    (done : textOr? absent item = some t) (sized : item.Sized limit) (short : limit ≤ maxLength) :
    t.Storable := by
  rcases orNull?_cases done sized with rfl | ⟨inner, sized, done⟩
  · exact storable
  · split at done
    · simp only [Option.ite_none_right_eq_some, Option.some.injEq] at done
      obtain ⟨utf8, rfl⟩ := done
      cases sized with
      | text length => exact ⟨Text.isUtf8_flatten utf8, Nat.le_trans length short⟩
    · cases done

theorem storable_nil : Text.Storable [] := ⟨rfl, Nat.zero_le _⟩

theorem storable_of_section? {α : Type} {f : Item → Option α} {each : α → Prop} {entries : Section α}
    (done : section? f item = some entries) (sized : item.Sized limit)
    (all : ∀ {inner x}, f inner = some x → inner.Sized limit → each x) : entries.Storable each := by
  obtain ⟨few, made⟩ := section?_sized done sized
  refine ⟨few, fun x member => ?_⟩
  obtain ⟨inner, sized, decoded⟩ := made x member
  exact all decoded sized

theorem namesAfter?_storable {entries : List (Item × Item)} {slot : Int} {name : Text} {names : List (Int × Text)}
    (done : namesAfter? slot name entries = some names) (word : IsWord slot) (storable : name.Storable)
    (values : ∀ entry ∈ entries, entry.2.Sized limit) (short : limit ≤ maxLength) :
    names.length = entries.length ∧ ∀ entry ∈ names, IsWord entry.1 ∧ Text.Storable entry.2 := by
  induction entries generalizing slot name names with
  | nil =>
      cases done
      simp
  | cons entry entries ih =>
      obtain ⟨slot', found, done⟩ := Option.bind_eq_some_iff.mp done
      obtain ⟨name', found', done⟩ := Option.bind_eq_some_iff.mp done
      obtain ⟨names', rest, done⟩ := Option.bind_eq_some_iff.mp done
      cases done
      rw [List.forall_mem_cons] at values
      have word' := intOr?_word word found
      have storable' := textOr?_storable storable found' values.1 short
      obtain ⟨length, each⟩ := ih rest word' storable' values.2
      exact ⟨congrArg Nat.succ length, List.forall_mem_cons.mpr ⟨⟨word', storable'⟩, each⟩⟩

theorem names?_storable {names : Option NameMap} (done : names? item = some names)
    (sized : item.Sized limit) (short : limit ≤ maxLength) : NameMap.Storable (names.getD .empty) := by
  rcases orNull?_cases done sized with rfl | ⟨inner, sized, done⟩
  · exact ⟨Nat.zero_le _, by simp, by simp⟩
  · split at done
    · obtain ⟨pairs, found, rfl⟩ := Option.map_eq_some_iff.mp done
      cases sized with
      | map few _ values =>
          obtain ⟨length, each⟩ := namesAfter?_storable found isWord_zero storable_nil values short
          have fewer := Dictionary.size_ofEntries_le pairs
          exact ⟨by simp only [Option.getD_some]; omega,
            fun entry member => (each entry (Dictionary.mem_ofEntries member)).1,
            fun entry member => (each entry (Dictionary.mem_ofEntries member)).2⟩
    · cases done

theorem field?_satisfies {α : Type} {fields : List (Option Nat × Item)} {number : Nat}
    {f : Item → Option α} {x : α} {property : α → Prop} (done : field? fields number f = some x)
    (sized : ∀ field ∈ fields, field.2.Sized limit)
    (all : ∀ {inner}, f inner = some x → inner.Sized limit → property x) : property x := by
  obtain ⟨inner, sized, decoded⟩ := field?_sized done sized
  exact all decoded sized

theorem line?_storable {e : LineEntry} (done : line? item = some e) : e.Storable := by
  obtain ⟨fields, _, done⟩ := Option.bind_eq_some_iff.mp done
  obtain ⟨offset, found, done⟩ := Option.bind_eq_some_iff.mp done
  obtain ⟨line, found', done⟩ := Option.bind_eq_some_iff.mp done
  cases done
  exact ⟨intOr?_word isWord_zero found, intOr?_word isWord_zero found'⟩

theorem clause?_storable {c : CatchClause} (done : clause? item = some c) : c.Storable := by
  obtain ⟨fields, _, done⟩ := Option.bind_eq_some_iff.mp done
  obtain ⟨entry, found, done⟩ := Option.bind_eq_some_iff.mp done
  obtain ⟨errorType, found', done⟩ := Option.bind_eq_some_iff.mp done
  obtain ⟨slot, found'', done⟩ := Option.bind_eq_some_iff.mp done
  cases done
  exact ⟨intOr?_word isWord_zero found, intOr?_word isWord_zero found', intOr?_word isWord_zero found''⟩

theorem region?_storable {r : TryRegion} (done : region? item = some r) (sized : item.Sized limit) :
    r.Storable := by
  obtain ⟨fields, read, done⟩ := Option.bind_eq_some_iff.mp done
  obtain ⟨catches, found, done⟩ := Option.bind_eq_some_iff.mp done
  obtain ⟨elseEntry, found', done⟩ := Option.bind_eq_some_iff.mp done
  cases done
  have inside := fields?_sized read sized
  exact ⟨field?_satisfies found inside fun done sized =>
    storable_of_section? done sized fun done _ => clause?_storable done, intOr?_word isWord_zero found'⟩

theorem text?_storable {t : Text} (short : limit ≤ maxLength) (done : text? item = some t)
    (sized : item.Sized limit) : t.Storable :=
  textOr?_storable storable_nil done sized short

theorem capture?_storable {c : Capture} (done : capture? item = some c) (sized : item.Sized limit)
    (short : limit ≤ maxLength) : c.Storable := by
  obtain ⟨fields, read, done⟩ := Option.bind_eq_some_iff.mp done
  obtain ⟨name, found, done⟩ := Option.bind_eq_some_iff.mp done
  obtain ⟨depth, depth_, done⟩ := Option.bind_eq_some_iff.mp done
  obtain ⟨source, source_, done⟩ := Option.bind_eq_some_iff.mp done
  obtain ⟨target, target_, done⟩ := Option.bind_eq_some_iff.mp done
  cases done
  exact ⟨field?_satisfies found (fields?_sized read sized) (text?_storable short),
    intOr?_word isWord_zero depth_, intOr?_word isWord_zero source_, intOr?_word isWord_zero target_⟩

theorem constant?_storable {k : Constant} (done : constant? item = some k) (sized : item.Sized limit)
    (short : limit ≤ maxLength) : k.recoded.Storable := by
  obtain ⟨fields, read, done⟩ := Option.bind_eq_some_iff.mp done
  obtain ⟨tag, _, done⟩ := Option.bind_eq_some_iff.mp done
  obtain ⟨number, _, done⟩ := Option.bind_eq_some_iff.mp done
  obtain ⟨text, found, done⟩ := Option.bind_eq_some_iff.mp done
  obtain ⟨flag, _, done⟩ := Option.bind_eq_some_iff.mp done
  obtain ⟨index, index_, done⟩ := Option.bind_eq_some_iff.mp done
  cases done
  exact ⟨number.recoded_ne_negativeZero,
    field?_satisfies found (fields?_sized read sized) (text?_storable short),
    intOr?_word isWord_zero index_⟩

theorem code?_size {code : Section UInt8} (done : code? item = some code) (sized : item.Sized limit)
    (short : limit ≤ maxLength) : code.entries.size ≤ maxLength := by
  obtain ⟨inner, untagged, done⟩ := Option.bind_eq_some_iff.mp done
  have sized' := untag?_sized untagged sized
  split at done
  · cases done
    cases sized' with
    | bytes length => simpa [Section.entries] using Nat.le_trans length short
  · cases done
    cases sized' with
    | tag _ sized' =>
        cases sized' with
        | bytes length => simpa [Section.entries] using Nat.le_trans length short
  · exact Nat.le_trans (section?_sized done sized').1 (by decide)

theorem chunk?_storable {c : Chunk} (done : chunk? item = some c) (sized : item.Sized limit)
    (short : limit ≤ maxLength) : c.recoded.Storable := by
  obtain ⟨fields, read, done⟩ := Option.bind_eq_some_iff.mp done
  obtain ⟨version, _, done⟩ := Option.bind_eq_some_iff.mp done
  obtain ⟨code, code_, done⟩ := Option.bind_eq_some_iff.mp done
  obtain ⟨constants, constants_, done⟩ := Option.bind_eq_some_iff.mp done
  obtain ⟨lines, lines_, done⟩ := Option.bind_eq_some_iff.mp done
  obtain ⟨regions, regions_, done⟩ := Option.bind_eq_some_iff.mp done
  obtain ⟨globals, globals_, done⟩ := Option.bind_eq_some_iff.mp done
  obtain ⟨explicit, explicit_, done⟩ := Option.bind_eq_some_iff.mp done
  obtain ⟨errorTypes, errorTypes_, done⟩ := Option.bind_eq_some_iff.mp done
  cases done
  have inside := fields?_sized read sized
  have storableNames {number : Nat} {names : Option NameMap}
      (found : field? fields number names? = some names) : NameMap.Storable (names.getD .empty) := by
    obtain ⟨inner, sized, found⟩ := field?_sized found inside
    exact names?_storable found sized short
  have recoded : constants.Storable fun k => k.recoded.Storable :=
    field?_satisfies constants_ inside fun done sized =>
      storable_of_section? done sized fun done sized => constant?_storable done sized short
  exact {
    code := by
      obtain ⟨inner, sized, found⟩ := field?_sized code_ inside
      exact code?_size found sized short
    constants := recoded.map fun _ storable => storable
    lines := field?_satisfies lines_ inside fun done sized =>
      storable_of_section? done sized fun done _ => line?_storable done
    regions := field?_satisfies regions_ inside fun done sized =>
      storable_of_section? done sized region?_storable
    globals := storableNames globals_
    explicit := storableNames explicit_
    errorTypes := field?_satisfies errorTypes_ inside fun done sized =>
      storable_of_section? done sized (text?_storable short) }

theorem option?_eq_some {α : Type} {f : Item → Option α} {x : α}
    (done : option? f item = some (some x)) : f item = some x := by
  unfold option? at done
  split at done
  · cases done
  · obtain ⟨y, decoded, same⟩ := Option.map_eq_some_iff.mp done
    cases same
    exact decoded

theorem function?_storable {f : Function} {chunk : Chunk} (done : function? item = some f)
    (present : f.chunk = some chunk) (sized : item.Sized limit) (short : limit ≤ maxLength) :
    f.recoded.Storable := by
  obtain ⟨fields, read, done⟩ := Option.bind_eq_some_iff.mp done
  obtain ⟨name, name_, done⟩ := Option.bind_eq_some_iff.mp done
  obtain ⟨arity, arity_, done⟩ := Option.bind_eq_some_iff.mp done
  obtain ⟨params, params_, done⟩ := Option.bind_eq_some_iff.mp done
  obtain ⟨captures, captures_, done⟩ := Option.bind_eq_some_iff.mp done
  obtain ⟨chunk', chunk_, done⟩ := Option.bind_eq_some_iff.mp done
  obtain ⟨cacheable, _, done⟩ := Option.bind_eq_some_iff.mp done
  cases done
  subst present
  have inside := fields?_sized read sized
  have captures' : captures.Storable Capture.Storable := field?_satisfies captures_ inside
    fun done sized => storable_of_section? done sized fun done sized => capture?_storable done sized short
  have params' : params.Storable Text.Storable := field?_satisfies params_ inside
    fun done sized => storable_of_section? done sized (text?_storable short)
  exact {
    name := field?_satisfies name_ inside (text?_storable short)
    arity := intOr?_word isWord_zero arity_
    params := by
      unfold Function.recoded
      split
      · exact ⟨Nat.zero_le _, by simp [Section.entries]⟩
      · exact params'
    captures := ⟨captures'.few, captures'.all⟩
    chunk := by
      obtain ⟨inner, sized, found⟩ := field?_sized chunk_ inside
      exact ⟨chunk.recoded, rfl, chunk?_storable (option?_eq_some found) sized short⟩ }

end Wire

/-! ## Loading and storing -/

namespace Artifact

theorem asStored_recoded_withNames (c : Chunk) :
    (withNames c).recoded.asStored = (withNames c).recoded := by
  have constants (k : Constant) : k.recoded.asStored = k.recoded := by
    rw [Constant.asStored, Constant.recoded, Number.asStored_recoded]
  simp [Chunk.asStored, Chunk.recoded, withNames, constants, Function.comp_def, Chunk.globalNames,
    Chunk.explicitNames]

theorem asStored_recoded_function {f : Function} {chunk : Chunk}
    (present : f.chunk = some (withNames chunk)) : f.recoded.asStored = f.recoded := by
  have params : (f.recoded).trimmed = f.recoded := by
    simp only [Function.trimmed, Function.recoded]
    split
    · rfl
    · rfl
  rw [Function.asStored, params, Function.recoded, present]
  simp [asStored_recoded_withNames]

theorem storable_withNames {f : Function} {chunk : Chunk} (present : f.chunk = some chunk)
    (storable : f.recoded.Storable) :
    ({ f with chunk := some (withNames chunk) } : Function).recoded.Storable := by
  obtain ⟨recoded, same, chunkStorable⟩ := storable.chunk
  rw [Function.recoded, present] at same
  cases same
  exact { storable with chunk := ⟨(withNames chunk).recoded, rfl, { chunkStorable with }⟩ }

/-- What was loaded can be stored once it is recoded, and is then what is loaded from there. -/
theorem load_recoded {data : Text} {p : Program} (loaded : load data = .ok p)
    (short : data.length ≤ Wire.maxLength) : p.recoded.Storable ∧ p.recoded.asStored = p.recoded := by
  obtain ⟨item, stored, read, decoded, completed⟩ := load_ok loaded
  obtain ⟨main, functions, present, made, rfl⟩ := complete_ok completed
  have sized := (Wire.read?_framed read).2
  have short' : (data.drop 6).length ≤ Wire.maxLength := by
    rw [List.length_drop]
    omega
  obtain ⟨fields, fields_, decoded⟩ := Option.bind_eq_some_iff.mp decoded
  obtain ⟨main', main_, decoded⟩ := Option.bind_eq_some_iff.mp decoded
  obtain ⟨functions', functions_, decoded⟩ := Option.bind_eq_some_iff.mp decoded
  cases decoded
  subst present
  have inside := Wire.fields?_sized fields_ sized
  obtain ⟨mainItem, mainSized, main_⟩ := Wire.field?_sized main_ inside
  obtain ⟨functionsItem, functionsSized, functions_⟩ := Wire.field?_sized functions_ inside
  obtain ⟨few, each⟩ := Wire.section?_sized functions_ functionsSized
  have mainStorable := Wire.chunk?_storable (Wire.option?_eq_some main_) mainSized short'
  have listed {entry : Option Function} (member : entry ∈ functions.toArray) :
      ∃ f, entry = some f ∧ f.recoded.Storable ∧ f.recoded.asStored = f.recoded := by
    obtain ⟨f, chunk, given, present, rfl⟩ := mem_completeFunctions made (List.mem_toArray.mp member)
    obtain ⟨inner, innerSized, made⟩ := each _ (Array.mem_toList_iff.mp given)
    have storable := Wire.function?_storable (Wire.option?_eq_some made) present innerSized short'
    exact ⟨_, rfl, storable_withNames present storable, asStored_recoded_function rfl⟩
  refine ⟨⟨⟨(withNames main).recoded, rfl, { mainStorable with }⟩, ?_, ?_⟩, ?_⟩
  · have length := length_completeFunctions made
    simp only [Program.recoded, Array.size_map, List.size_toArray, length, Array.length_toList]
    exact few
  · intro entry member
    obtain ⟨given, stored, rfl⟩ := Array.mem_map.mp member
    obtain ⟨f, rfl, storable, _⟩ := listed stored
    exact ⟨f.recoded, rfl, storable⟩
  · have functions' : (functions.toArray.map (Option.map Function.recoded)).map
        (Option.map Function.asStored) = functions.toArray.map (Option.map Function.recoded) := by
      rw [Array.map_map]
      apply Array.map_congr_left
      intro entry member
      obtain ⟨f, rfl, _, same⟩ := listed member
      exact congrArg some same
    simp only [Program.asStored, Program.recoded, Option.map_some, asStored_recoded_withNames, functions']

/-- Whatever a program was loaded from, it is stored as one artifact, and the program of that artifact is
stored as it again. No byte string is longer than `maxLength`. -/
theorem store_canonical {data : Text} {p : Program} (loaded : load data = .ok p)
    (fits : data.length ≤ Wire.maxLength) :
    ∃ data', store p = .ok data' ∧ load data' = .ok p.recoded ∧ store p.recoded = .ok data' := by
  obtain ⟨storable, kept⟩ := load_recoded loaded fits
  obtain ⟨item, stored, read, decoded, completed⟩ := load_ok loaded
  obtain ⟨main, functions, _, _, rfl⟩ := complete_ok completed
  have same : bytes (Program.recoded ⟨some (withNames main), functions.toArray⟩) =
      bytes ⟨some (withNames main), functions.toArray⟩ := by
    rw [bytes, Wire.write_programItem_recoded]
    rfl
  refine ⟨_, store_of_main rfl, ?_, ?_⟩
  · rw [← same, load_bytes storable, kept]
  · rw [← same]
    exact store_of_main rfl

end Artifact

/-! An artifact in the reader's other spellings: containers and a text that an end mark ends, a field
named by a text, numbers in more bytes than needed, a tag, a field given twice, one that is not known, and
code as an array. Its numbers are a negative zero and one of the words that are not a number. -/

namespace Loose

def artifact : Text :=
  [0x44, 0x43, 0x42, 0x43, 1, 0, 0xBF, 0x61, 0x31, 0xD8, 42, 0xBF, 0x18, 2, 0x84, 0x19, 0, 2, 0, 0, 0x18,
    0x51, 3, 0x9F, 0xA2, 1, 1, 2, 0xFB, 0x80, 0, 0, 0, 0, 0, 0, 0, 0xA2, 1, 1, 2, 0xFB, 0x7F, 0xF8, 0, 0, 0,
    0, 0, 1, 0xA2, 1, 3, 3, 0x7F, 0x61, 0x61, 0x61, 0x62, 0xFF, 0xFF, 2, 0x41, 0, 0x18, 99, 0xF6, 0xFF,
    2, 0x81, 0xA3, 1, 0x61, 0x66, 3, 0x80, 5, 0xA0, 0xFF]

def main : Chunk where
  version := 0
  code := some #[0x02, 0, 0, 0x51]
  constants := some #[Literal.constant (.number .negativeZero),
    Literal.constant (.number ⟨0x7FF8000000000001⟩), Literal.constant (.string [0x61, 0x62])]
  lines := none
  regions := none
  globals := some .empty
  explicit := some .empty
  errorTypes := none

def body : Chunk := { main with code := none, constants := none }

def program : Program := ⟨some main, #[some ⟨[0x66], 0, some #[], #[], false, some body⟩]⟩

theorem load_artifact : Artifact.load artifact = .ok program := by
  have loaded : (Artifact.load artifact).toOption = some program := by decide +kernel
  cases result : Artifact.load artifact with
  | error e =>
      rw [result] at loaded
      cases loaded
  | ok p =>
      rw [result] at loaded
      cases loaded
      rfl

end Loose

namespace Artifact

theorem store_canonical_of_loose :
    ∃ data, store Loose.program = .ok data ∧ load data = .ok Loose.program.recoded ∧
      store Loose.program.recoded = .ok data ∧ data ≠ Loose.artifact ∧
      Loose.program.recoded ≠ Loose.program := by
  have different : Loose.program.recoded ≠ Loose.program := by decide +kernel
  obtain ⟨data, stored, loaded, again⟩ := store_canonical Loose.load_artifact (by decide)
  refine ⟨data, stored, loaded, again, fun same => ?_, different⟩
  rw [same, Loose.load_artifact] at loaded
  exact different (Except.ok.inj loaded).symm

end Artifact

end TableMachine
