import TableMachine.Proofs.Numbers
import TableMachine.Wire.Reader

/-! # Written items are read back

The reader takes exactly the bytes of a written item and leaves what follows it, so that items in a row
and items in containers need no care of their own. What has to be known about an item is that its numbers,
lengths and counts are within what a head can state and the reader accepts.
-/

namespace TableMachine.Wire

variable {data rest : Text} {major n depth fuel : Nat} {item : Item} {x : Number}

/-! ## Heads -/

namespace Item

theorem bigEndian_succ (count n : Nat) :
    bigEndian (count + 1) n = (n / 256 ^ count).toUInt8 :: bigEndian count n := by
  unfold bigEndian
  rw [List.range_succ_eq_map, List.map_cons, List.map_map]
  refine List.cons_eq_cons.mpr ⟨rfl, List.map_congr_left fun i _ => ?_⟩
  show (n / pow256 (count - (i + 1))).toUInt8 = _
  rw [Nat.add_comm, Nat.sub_add_eq]

@[simp] theorem length_bigEndian (count n : Nat) : (bigEndian count n).length = count := by
  simp [bigEndian]

end Item

open Item

theorem foldl_natOf (bytes : Text) (start : Nat) :
    bytes.foldl (fun n b => n * 256 + b.toNat) start = start * 256 ^ bytes.length + natOf bytes := by
  unfold natOf
  induction bytes generalizing start with
  | nil => simp
  | cons b bytes ih =>
      simp only [List.foldl_cons, List.length_cons, Nat.zero_mul, Nat.zero_add]
      rw [ih, ih b.toNat, Nat.add_mul, Nat.mul_assoc, Nat.pow_succ', Nat.add_assoc]

theorem natOf_cons (b : UInt8) (bytes : Text) :
    natOf (b :: bytes) = b.toNat * 256 ^ bytes.length + natOf bytes := by
  have start := foldl_natOf bytes b.toNat
  unfold natOf at start ⊢
  simpa using start

theorem natOf_bigEndian (count n : Nat) : natOf (bigEndian count n) = n % 256 ^ count := by
  induction count with
  | zero => simp [bigEndian, natOf, Nat.mod_one]
  | succ count ih =>
      rw [bigEndian_succ, natOf_cons, ih, length_bigEndian, Nat.mod_pow_succ, Nat.mul_comm]
      simp [Nat.add_comm]

@[simp] theorem takeExactly?_append (data rest : Text) :
    takeExactly? data.length (data ++ rest) = some (data, rest) := by
  simp [takeExactly?]

theorem takeExactly?_bigEndian (count n : Nat) (rest : Text) :
    takeExactly? count (bigEndian count n ++ rest) = some (bigEndian count n, rest) := by
  have take := takeExactly?_append (bigEndian count n) rest
  rwa [length_bigEndian] at take

private theorem first_toNat {info : Nat} (majors : major < 8) (infos : info < 32) :
    (major * 32 + info).toUInt8.toNat = major * 32 + info := by
  simp only [Nat.toUInt8_eq, UInt8.toNat_ofNat']
  omega

/-- A number below 24 stands in the head itself. -/
theorem readHead?_head_of_lt (majors : major < 8) (small : n < 24) (rest : Text) :
    readHead? (head major n ++ rest) = some (major, .given n n, rest) := by
  have byte := first_toNat majors (show n < 32 by omega)
  unfold head
  simp only [if_pos small, List.cons_append, List.nil_append, readHead?, byte]
  rw [if_pos (by omega)]
  congr 2
  · omega
  · congr 2 <;> omega

/-- A head of 24 to 27 in its low bits is followed by its number. -/
theorem readHead?_wide (major info : Nat) {count : Nat} (majors : major < 8) (word : n < 256 ^ count)
    (info_eq : (info = 24 ∧ count = 1 ∧ major < 7) ∨ (info = 25 ∧ count = 2) ∨
      (info = 26 ∧ count = 4) ∨ (info = 27 ∧ count = 8)) :
    readHead? ((major * 32 + info).toUInt8 :: bigEndian count n ++ rest) =
      some (major, .given info n, rest) := by
  have byte := first_toNat majors (show info < 32 by omega)
  have high : (major * 32 + info) / 32 = major := by omega
  have low : (major * 32 + info) % 32 = info := by omega
  have number : natOf (bigEndian count n) = n := by rw [natOf_bigEndian, Nat.mod_eq_of_lt word]
  simp only [readHead?, List.cons_append, byte, high, low]
  rcases info_eq with ⟨rfl, rfl, plain⟩ | ⟨rfl, rfl⟩ | ⟨rfl, rfl⟩ | ⟨rfl, rfl⟩
  · simp [takeExactly?_bigEndian, number, Nat.ne_of_lt plain]
  all_goals simp [takeExactly?_bigEndian, number]

theorem readHead?_head (major : Nat) (majors : major < 7) (word : n < 2 ^ 64) (rest : Text) :
    ∃ info, readHead? (head major n ++ rest) = some (major, .given info n, rest) := by
  by_cases small : n < 24
  · exact ⟨n, readHead?_head_of_lt (by omega) small rest⟩
  · unfold head
    simp only [pow2_eq, if_neg small]
    split
    · exact ⟨24, readHead?_wide major 24 (by omega) (by omega) (by omega)⟩
    · split
      · exact ⟨25, readHead?_wide major 25 (by omega) (by omega) (by omega)⟩
      · split
        · exact ⟨26, readHead?_wide major 26 (by omega) (by omega) (by omega)⟩
        · exact ⟨27, readHead?_wide major 27 (by omega) (by omega) (by omega)⟩

theorem length_head_pos (major n : Nat) : 0 < (head major n).length := by
  unfold head
  simp only
  split
  · simp
  · repeat' split
    all_goals simp

/-! ## Floats -/

theorem infinity_of_isInfinite (infinite : x.isInfinite = true) :
    Number.infinity x.isNegative = x := by
  have size : x.magnitude = Number.infinityMagnitude := by simpa [Number.isInfinite] using infinite
  rw [Number.infinity, ← size, Number.ofMagnitude_magnitude]

/-- Whatever format a number is written in, it is read from there. -/
theorem primitive_of_writeFloat (canonical : x.isNaN = true → x = .nan) (rest : Text) :
    ∃ info n, readHead? (writeFloat x ++ rest) = some (7, .given info n, rest) ∧
      primitive info n = .float x := by
  have half {n : Nat} (word : n < 256 ^ 2) :
      readHead? (0xF9 :: bigEndian 2 n ++ rest) = some (7, .given 25 n, rest) :=
    readHead?_wide 7 25 (by omega) word (by omega)
  unfold writeFloat
  split
  · rename_i nan
    rw [canonical nan]
    exact ⟨25, 0x7E00, half (by decide), rfl⟩
  · split
    · rename_i infinite
      have same := infinity_of_isInfinite infinite
      generalize x.isNegative = negative at same
      cases negative with
      | false => exact ⟨25, 0x7C00, half (by decide), congrArg Item.float same⟩
      | true => exact ⟨25, 0xFC00, half (by decide), congrArg Item.float same⟩
    · rename_i number bounded
      have finite : x.isFinite = true := by
        simp only [Number.isNaN, Number.isInfinite, Number.isFinite, decide_eq_true_eq] at number bounded ⊢
        omega
      split
      · rename_i word packed
        obtain ⟨back, small⟩ := Number.Format.unpack_pack? (by decide) finite packed
        exact ⟨25, word, half small, congrArg Item.float back⟩
      · split
        · rename_i word packed
          obtain ⟨back, small⟩ := Number.Format.unpack_pack? (by decide) finite packed
          exact ⟨26, word, readHead?_wide 7 26 (by omega) small (by omega), congrArg Item.float back⟩
        · refine ⟨27, x.bits.toNat, readHead?_wide 7 27 (by omega) x.bits.toNat_lt (by omega), ?_⟩
          show Item.float ⟨UInt64.ofNat x.bits.toNat⟩ = _
          rw [UInt64.ofNat_toNat]

/-! ## Items -/

/-- The item can be written and read inside `depth` containers. -/
inductive Item.Writable : Nat → Item → Prop where
  | unsigned {depth n : Nat} (word : n < 2 ^ 64) : Writable depth (.unsigned n)
  | negative {depth n : Nat} (word : n < 2 ^ 64) : Writable depth (.negative n)
  | bytes {depth : Nat} {content : Text} (length : content.length ≤ maxLength) :
      Writable depth (.bytes content)
  | text {depth : Nat} {content : Text} (length : content.length ≤ maxLength) :
      Writable depth (.text [content])
  | array {depth : Nat} {items : List Item} (inside : depth < maxDepth) (few : items.length ≤ maxEntries)
      (each : ∀ item ∈ items, Writable (depth + 1) item) : Writable depth (.array items)
  | map {depth : Nat} {entries : List (Item × Item)} (inside : depth < maxDepth)
      (few : entries.length ≤ maxEntries) (keys : ∀ entry ∈ entries, Writable (depth + 1) entry.1)
      (values : ∀ entry ∈ entries, Writable (depth + 1) entry.2) : Writable depth (.map entries)
  | simple {depth code : Nat} (low : code < 24) : Writable depth (.simple code)
  | float {depth : Nat} {x : Number} (canonical : x.isNaN = true → x = .nan) : Writable depth (.float x)

theorem length_write_pos (item : Item) : 0 < (write item).length := by
  cases item with
  | unsigned n | negative n | simple n =>
      unfold write
      exact length_head_pos _ _
  | bytes | text | array | map | tag =>
      unfold write
      rw [List.length_append]
      exact Nat.lt_of_lt_of_le (length_head_pos _ _) (Nat.le_add_right _ _)
  | float x =>
      unfold write writeFloat
      repeat' split
      all_goals simp

/-- Inside `depth` containers, the reader takes the bytes of the item and no others. -/
def Item.ReadsBack (depth : Nat) (item : Item) : Prop :=
  ∀ fuel rest, 2 * (write item).length ≤ fuel + 1 →
    readItem? fuel depth (write item ++ rest) = some (item, rest)

private theorem exists_fuel (enough : 2 * (write item).length ≤ fuel + 1) : ∃ less, fuel = less + 1 := by
  have positive := length_write_pos item
  exact ⟨fuel - 1, by omega⟩

private theorem length_lt {content : Text} (length : content.length ≤ maxLength) :
    content.length < 2 ^ 64 :=
  Nat.lt_of_le_of_lt length (by decide)

/-- Items in a row are read one after the other. Every item has a byte, so the depth of calls that the
bytes allow is enough. -/
theorem readCounted?_writeAll {items : List Item}
    (each : ∀ item ∈ items, item.ReadsBack depth)
    (enough : 2 * (writeAll items).length ≤ fuel) (rest : Text) :
    readCounted? fuel depth items.length (writeAll items ++ rest) = some (items, rest) := by
  induction items generalizing fuel with
  | nil => simp [readCounted?, writeAll]
  | cons item items ih =>
      have positive := length_write_pos item
      rw [writeAll, List.length_append] at enough
      obtain ⟨fuel, rfl⟩ := Nat.exists_eq_add_of_lt (show 0 < fuel by omega)
      rw [Nat.zero_add, List.length_cons, writeAll, List.append_assoc, readCounted?,
        each item List.mem_cons_self _ _ (by omega)]
      have others := ih (fun item member => each item (List.mem_cons_of_mem _ member))
        (show 2 * (writeAll items).length ≤ fuel by omega)
      simp [others]

/-- Keys and values in turn. -/
def inTurn (entries : List (Item × Item)) : List Item := entries.flatMap fun entry => [entry.1, entry.2]

theorem writeEntries_eq (entries : List (Item × Item)) :
    writeEntries entries = writeAll (inTurn entries) := by
  induction entries with
  | nil => rfl
  | cons entry entries ih => simp [writeEntries, inTurn, writeAll, ih]

theorem length_inTurn (entries : List (Item × Item)) : (inTurn entries).length = 2 * entries.length := by
  induction entries with
  | nil => rfl
  | cons entry entries ih => simp_all [inTurn]; omega

theorem pairUp?_inTurn (entries : List (Item × Item)) : pairUp? (inTurn entries) = some entries := by
  induction entries with
  | nil => rfl
  | cons entry entries ih =>
      show (pairUp? (inTurn entries)).map _ = _
      rw [ih]
      rfl

theorem forall_inTurn {entries : List (Item × Item)} {property : Item → Prop}
    (keys : ∀ entry ∈ entries, property entry.1) (values : ∀ entry ∈ entries, property entry.2) :
    ∀ item ∈ inTurn entries, property item := by
  intro item member
  simp only [inTurn, List.mem_flatMap, List.mem_cons, List.not_mem_nil, or_false] at member
  obtain ⟨entry, listed, rfl | rfl⟩ := member
  · exact keys entry listed
  · exact values entry listed

theorem primitive_of_lt {code : Nat} (low : code < 24) : primitive code code = .simple code := by
  unfold primitive
  split
  · omega
  · omega
  · omega
  · rfl

theorem readString?_append {content : Text} (length : content.length ≤ maxLength) :
    readString? content.length (content ++ rest) = some (content, rest) := by
  rw [readString?, if_neg (by omega), takeExactly?_append]

/-- What is written is read, and nothing after it. -/
theorem Item.Writable.readsBack (writable : item.Writable depth) : item.ReadsBack depth := by
  induction writable with
  | @unsigned depth n word =>
      intro fuel rest enough
      obtain ⟨fuel, rfl⟩ := exists_fuel enough
      obtain ⟨info, head_⟩ := readHead?_head 0 (by omega) word rest
      simp only [write, readItem?, head_]
  | @negative depth n word =>
      intro fuel rest enough
      obtain ⟨fuel, rfl⟩ := exists_fuel enough
      obtain ⟨info, head_⟩ := readHead?_head 1 (by omega) word rest
      simp only [write, readItem?, head_]
  | @bytes depth content length =>
      intro fuel rest enough
      obtain ⟨fuel, rfl⟩ := exists_fuel enough
      obtain ⟨info, head_⟩ := readHead?_head 2 (by omega) (length_lt length) (content ++ rest)
      simp only [write, List.append_assoc, readItem?, head_, readString?_append length,
        Option.bind_eq_bind, Option.bind_some]
  | @text depth content length =>
      intro fuel rest enough
      obtain ⟨fuel, rfl⟩ := exists_fuel enough
      obtain ⟨info, head_⟩ := readHead?_head 3 (by omega) (length_lt length) (content ++ rest)
      simp only [write, List.flatten_singleton, List.append_assoc, readItem?, head_,
        readString?_append length, Option.bind_eq_bind, Option.bind_some]
  | @array depth items inside few _ ih =>
      intro fuel rest enough
      obtain ⟨fuel, rfl⟩ := exists_fuel enough
      have word : items.length < 2 ^ 64 := Nat.lt_of_le_of_lt few (by decide)
      obtain ⟨info, head_⟩ := readHead?_head 4 (by omega) word (writeAll items ++ rest)
      have positive := length_head_pos 4 items.length
      rw [write, List.length_append] at enough
      have counted := readCounted?_writeAll ih (show _ ≤ fuel by omega) rest
      have fits : ¬ (decide (maxDepth ≤ depth) || decide (maxEntries < items.length)) = true := by
        simp only [Bool.or_eq_true, decide_eq_true_eq]
        omega
      simp only [write, List.append_assoc, readItem?, head_, if_neg fits, counted, Option.bind_eq_bind,
        Option.bind_some]
  | @map depth entries inside few _ _ keys values =>
      intro fuel rest enough
      obtain ⟨fuel, rfl⟩ := exists_fuel enough
      have word : entries.length < 2 ^ 64 := Nat.lt_of_le_of_lt few (by decide)
      obtain ⟨info, head_⟩ := readHead?_head 5 (by omega) word (writeEntries entries ++ rest)
      have positive := length_head_pos 5 entries.length
      rw [write, List.length_append] at enough
      have counted := readCounted?_writeAll (forall_inTurn keys values) 
        (show _ ≤ fuel by rw [← writeEntries_eq]; omega) rest
      rw [← writeEntries_eq, length_inTurn] at counted
      have fits : ¬ (decide (maxDepth ≤ depth) || decide (maxEntries < entries.length)) = true := by
        simp only [Bool.or_eq_true, decide_eq_true_eq]
        omega
      simp only [write, List.append_assoc, readItem?, head_, if_neg fits, counted, pairUp?_inTurn,
        Option.bind_eq_bind, Option.bind_some]
  | @simple depth code low =>
      intro fuel rest enough
      obtain ⟨fuel, rfl⟩ := exists_fuel enough
      have head_ := readHead?_head_of_lt (show 7 < 8 by omega) low rest
      simp only [write, readItem?, head_, primitive_of_lt low]
  | @float depth x canonical =>
      intro fuel rest enough
      obtain ⟨fuel, rfl⟩ := exists_fuel enough
      obtain ⟨info, n, head_, number⟩ := primitive_of_writeFloat canonical rest
      simp only [write, readItem?, head_, number]

/-- The bytes of an item are the item. -/
theorem read?_write (writable : item.Writable 0) : read? (write item) = some item := by
  have read := writable.readsBack (2 * (write item).length + 2) [] (by omega)
  rw [List.append_nil] at read
  rw [read?, read]

end TableMachine.Wire
