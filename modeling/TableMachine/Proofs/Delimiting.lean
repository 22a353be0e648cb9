import TableMachine.Proofs.Framing
import TableMachine.Proofs.Storing

/-! # Artifacts end by themselves

Every program is written as framed bytes, also one that could not be read back: with texts that are not
well-formed, parts that are missing or more entries than the reader accepts. So of the bytes of an
artifact no shorter part can be loaded, and neither can the artifact with anything behind it.
-/

namespace TableMachine

namespace Wire

open Item

variable {major n : Nat} {α : Type}

/-! ## Heads that are written -/

theorem isHead_head (majors : major < 7) :
    ∃ info m, IsHead (head major n) major (.given info m) ∧ (n < 2 ^ 64 → m = n) := by
  have first {info : Nat} (infos : info < 32) : (major * 32 + info).toUInt8.toNat / 32 = major ∧
      (major * 32 + info).toUInt8.toNat % 32 = info := by
    simp only [Nat.toUInt8_eq, UInt8.toNat_ofNat']
    omega
  have wide {info count : Nat} (infos : (info = 24 ∧ count = 1) ∨ (info = 25 ∧ count = 2) ∨
      (info = 26 ∧ count = 4) ∨ (info = 27 ∧ count = 8)) :
      IsHead ((major * 32 + info).toUInt8 :: bigEndian count n) major
        (.given info (n % 256 ^ count)) := by
    obtain ⟨high, low⟩ := first (show info < 32 by omega)
    have isHead := isHead_wide (length_bigEndian count n) (b := (major * 32 + info).toUInt8)
      (by rw [high, low]; omega)
    rwa [high, low, natOf_bigEndian] at isHead
  unfold head
  simp only [pow2_eq]
  split
  · rename_i small
    exact ⟨n, n, fun rest => by
      have read := readHead?_head_of_lt (show major < 8 by omega) small rest
      rwa [head, if_pos small] at read, fun _ => rfl⟩
  · split
    · exact ⟨24, _, wide (by omega), fun _ => Nat.mod_eq_of_lt (by omega)⟩
    · split
      · exact ⟨25, _, wide (by omega), fun _ => Nat.mod_eq_of_lt (by omega)⟩
      · split
        · exact ⟨26, _, wide (by omega), fun _ => Nat.mod_eq_of_lt (by omega)⟩
        · exact ⟨27, _, wide (by omega), fun word => Nat.mod_eq_of_lt (by omega)⟩

/-! ## Items that are written -/

/-- The item is written as framed bytes, if these are not more than there can be. -/
def Item.Delimited (item : Item) : Prop := (write item).length ≤ maxLength → Framed (write item)

theorem lt_of_le_maxLength (fits : n ≤ maxLength) : n < 2 ^ 64 := Nat.lt_of_le_of_lt fits (by decide)

theorem int_delimited (i : Int) : (Item.int i).Delimited := by
  intro _
  cases i with
  | ofNat n =>
      obtain ⟨info, m, isHead, _⟩ := isHead_head (show 0 < 7 by decide) (n := n)
      rw [Item.int, write]
      exact framed_of_isHead isHead rfl
  | negSucc n =>
      obtain ⟨info, m, isHead, _⟩ := isHead_head (show 1 < 7 by decide) (n := n)
      rw [Item.int, write]
      exact framed_of_isHead isHead rfl

theorem bytes_delimited (content : Text) : (Item.bytes content).Delimited := by
  intro fits
  obtain ⟨info, m, isHead, same⟩ := isHead_head (show 2 < 7 by decide) (n := content.length)
  rw [write, List.length_append] at fits
  rw [same (lt_of_le_maxLength (by omega))] at isHead
  rw [write]
  exact .bytes isHead rfl

theorem ofText_delimited (t : Text) : (Item.ofText t).Delimited := by
  intro fits
  obtain ⟨info, m, isHead, same⟩ := isHead_head (show 3 < 7 by decide) (n := t.length)
  rw [Item.ofText, write, List.flatten_singleton] at fits ⊢
  rw [List.length_append] at fits
  rw [same (lt_of_le_maxLength (by omega))] at isHead
  exact .bytes isHead rfl

theorem simple_delimited {code : Nat} (low : code < 24) : (Item.simple code).Delimited := by
  intro _
  rw [write]
  exact framed_of_isHead (fun rest => readHead?_head_of_lt (by decide) low rest) rfl

theorem bool_delimited (b : Bool) : (Item.bool b).Delimited := by
  cases b <;> exact simple_delimited (by decide)

theorem float_delimited (x : Number) : (Item.float x).Delimited := by
  intro _
  have word {b : UInt8} {count : Nat} (n : Nat)
      (wide : (b = 0xF9 ∧ count = 2) ∨ (b = 0xFA ∧ count = 4) ∨ (b = 0xFB ∧ count = 8)) :
      Framed (b :: bigEndian count n) := by
    rcases wide with ⟨rfl, rfl⟩ | ⟨rfl, rfl⟩ | ⟨rfl, rfl⟩ <;>
      exact framed_of_isHead (isHead_wide (length_bigEndian _ n) (by decide)) rfl
  rw [write, writeFloat]
  split
  · exact word _ (.inl ⟨rfl, rfl⟩)
  · split
    · exact word _ (.inl ⟨rfl, rfl⟩)
    · split
      · exact word _ (.inl ⟨rfl, rfl⟩)
      · split
        · exact word _ (.inr (.inl ⟨rfl, rfl⟩))
        · exact word _ (.inr (.inr ⟨rfl, rfl⟩))

theorem writeAll_eq (items : List Item) : writeAll items = (items.map write).flatten := by
  induction items with
  | nil => rfl
  | cons item items ih => simp [writeAll, ih]

/-- Every item has a byte. -/
theorem length_le_writeAll (items : List Item) : items.length ≤ (writeAll items).length := by
  induction items with
  | nil => simp
  | cons item items ih =>
      have positive := length_write_pos item
      simp only [writeAll, List.length_cons, List.length_append]
      omega

theorem length_write_le {items : List Item} {item : Item} (member : item ∈ items) :
    (write item).length ≤ (writeAll items).length := by
  rw [writeAll_eq]
  exact (List.sublist_flatten_of_mem (List.mem_map_of_mem member)).length_le

private theorem framed_writeAll {items : List Item} (each : ∀ item ∈ items, item.Delimited)
    (fits : (writeAll items).length ≤ maxLength) : ∀ part ∈ items.map write, Framed part := by
  intro part member
  obtain ⟨item, listed, rfl⟩ := List.mem_map.mp member
  exact each item listed (Nat.le_trans (length_write_le listed) fits)

theorem array_delimited {items : List Item} (each : ∀ item ∈ items, item.Delimited) :
    (Item.array items).Delimited := by
  intro fits
  obtain ⟨info, m, isHead, same⟩ := isHead_head (show 4 < 7 by decide) (n := items.length)
  have count := length_le_writeAll items
  rw [write, List.length_append] at fits
  rw [same (lt_of_le_maxLength (by omega))] at isHead
  rw [write, writeAll_eq]
  exact .items isHead (by rw [List.length_map]; rfl) (framed_writeAll each (by omega))

theorem map_delimited {entries : List (Item × Item)} (keys : ∀ entry ∈ entries, entry.1.Delimited)
    (values : ∀ entry ∈ entries, entry.2.Delimited) : (Item.map entries).Delimited := by
  intro fits
  obtain ⟨info, m, isHead, same⟩ := isHead_head (show 5 < 7 by decide) (n := entries.length)
  have count := length_le_writeAll (inTurn entries)
  rw [length_inTurn] at count
  rw [write, writeEntries_eq, List.length_append] at fits
  rw [same (lt_of_le_maxLength (by omega))] at isHead
  rw [write, writeEntries_eq, writeAll_eq]
  refine .items isHead ?_ (framed_writeAll (forall_inTurn keys values) (by omega))
  rw [List.length_map, length_inTurn]
  rfl

/-! ## Programs -/

theorem record_delimited {fields : List (Nat × Item)} (each : ∀ field ∈ fields, field.2.Delimited) :
    (record fields).Delimited := by
  apply map_delimited
  · intro entry member
    obtain ⟨field, _, rfl⟩ := List.mem_map.mp member
    exact int_delimited (.ofNat field.1)
  · intro entry member
    obtain ⟨field, listed, rfl⟩ := List.mem_map.mp member
    exact each field listed

theorem sectionItem_delimited {g : α → Item} (each : ∀ x, (g x).Delimited) (entries : Section α) :
    (sectionItem g entries).Delimited := by
  cases entries with
  | none => exact simple_delimited (by decide)
  | some entries =>
      apply array_delimited
      intro item member
      obtain ⟨x, _, rfl⟩ := List.mem_map.mp member
      exact each x

theorem optionItem_delimited {g : α → Item} (each : ∀ x, (g x).Delimited) (x : Option α) :
    (optionItem g x).Delimited := by
  cases x with
  | none => exact simple_delimited (by decide)
  | some x => exact each x

theorem namesItem_delimited (names : Option NameMap) : (namesItem names).Delimited := by
  cases names with
  | none => exact simple_delimited (by decide)
  | some names =>
      obtain ⟨pairs, _, item⟩ := namesItem_eq names
      rw [item]
      apply map_delimited
      · intro entry member
        obtain ⟨pair, _, rfl⟩ := List.mem_map.mp member
        exact int_delimited pair.1
      · intro entry member
        obtain ⟨pair, _, rfl⟩ := List.mem_map.mp member
        exact ofText_delimited pair.2

theorem codeItem_delimited (code : Section UInt8) : (codeItem code).Delimited := by
  cases code with
  | none => exact simple_delimited (by decide)
  | some code => exact bytes_delimited _

theorem constantItem_delimited (k : Constant) : (constantItem k).Delimited := by
  apply record_delimited
  simp only [List.forall_mem_append, List.forall_mem_singleton]
  exact ⟨⟨⟨⟨int_delimited (.ofNat k.tag.toNat), forall_unless (float_delimited k.number)⟩,
    forall_unless (ofText_delimited k.text)⟩, forall_unless (bool_delimited k.flag)⟩,
    forall_unless (int_delimited k.index)⟩

theorem lineItem_delimited (e : LineEntry) : (lineItem e).Delimited := by
  apply record_delimited
  simp [int_delimited]

theorem clauseItem_delimited (c : CatchClause) : (clauseItem c).Delimited := by
  apply record_delimited
  simp [int_delimited]

theorem regionItem_delimited (r : TryRegion) : (regionItem r).Delimited := by
  apply record_delimited
  simp [int_delimited, sectionItem_delimited clauseItem_delimited]

theorem captureItem_delimited (c : Capture) : (captureItem c).Delimited := by
  apply record_delimited
  simp [int_delimited, ofText_delimited]

theorem chunkItem_delimited (c : Chunk) : (chunkItem c).Delimited := by
  apply record_delimited
  have version := int_delimited (.ofNat c.version.toNat)
  simp [codeItem_delimited, sectionItem_delimited constantItem_delimited,
    sectionItem_delimited lineItem_delimited, sectionItem_delimited regionItem_delimited,
    namesItem_delimited, sectionItem_delimited ofText_delimited]
  exact version

theorem functionItem_delimited (f : Function) : (functionItem f).Delimited := by
  apply record_delimited
  have captures := sectionItem_delimited captureItem_delimited (some f.captures)
  simp only [List.forall_mem_append, List.forall_mem_cons]
  exact ⟨⟨⟨⟨⟨ofText_delimited f.name, int_delimited f.arity, by simp⟩,
    forall_unless (sectionItem_delimited ofText_delimited f.params)⟩, forall_unless captures⟩,
    optionItem_delimited chunkItem_delimited f.chunk, by simp⟩,
    forall_unless (bool_delimited f.cacheable)⟩

theorem programItem_delimited (p : Program) : (programItem p).Delimited := by
  apply record_delimited
  have functions :=
    sectionItem_delimited (optionItem_delimited functionItem_delimited) (some p.functions)
  simp only [List.forall_mem_append, List.forall_mem_singleton]
  exact ⟨optionItem_delimited chunkItem_delimited p.main, forall_unless functions⟩

/-- Bytes that begin with a framed item, or that one begins with, are read only if they are the item. -/
theorem read?_eq_none_of_ne {body data rest rest' : Text} (framed : Framed body)
    (same : data ++ rest = body ++ rest') (different : data ≠ body) : read? data = none := by
  cases read : read? data with
  | none => rfl
  | some item => exact absurd ((read?_framed read).1.separate body rest rest' framed same) different

end Wire

/-! ## Artifacts -/

namespace Artifact

/-- The bytes before the item. -/
def heading : Text := mark ++ versionBytes Chunk.currentVersion

theorem load_of_unread {body : Text} (unread : Wire.read? body = none) :
    load (heading ++ body) = .error .malformed := by
  have long : ¬ (heading ++ body).length < 6 := by simp [heading, mark, versionBytes]
  have rest : (heading ++ body).drop 6 = body := rfl
  unfold load
  rw [if_neg long, rest, unread]
  rfl

/-- An artifact cut short cannot be loaded, and neither can one with something behind it. No byte string
is longer than `maxLength`. -/
theorem artifact_ends_by_itself {p : Program} {data : Text} (stored : store p = .ok data)
    (fits : data.length ≤ Wire.maxLength) :
    (∀ part, part <+: data → part ≠ data → load part =
      .error (if part.length < 6 then .tooShort part.length else .malformed)) ∧
    ∀ more, more ≠ [] → load (data ++ more) = .error .malformed := by
  obtain ⟨body, rfl, framed⟩ : ∃ body, data = heading ++ body ∧ Wire.Framed body := by
    unfold store at stored
    split at stored
    · cases stored
    · cases stored
      rw [List.length_append] at fits
      exact ⟨_, rfl, Wire.programItem_delimited p (by omega)⟩
  constructor
  · rintro part ⟨rest, same⟩ different
    split
    · rename_i short
      unfold load
      rw [if_pos short]
    · rename_i long
      obtain ⟨begun, rfl⟩ : heading <+: part :=
        List.prefix_of_prefix_length_le (List.prefix_append _ body) ⟨rest, same⟩ (Nat.not_lt.mp long)
      rw [List.append_assoc] at same
      have cut : begun ++ rest = body ++ [] := by
        rw [List.append_nil]
        exact List.append_cancel_left same
      exact load_of_unread (Wire.read?_eq_none_of_ne framed cut fun whole => different (by rw [whole]))
  · intro more present
    rw [List.append_assoc]
    exact load_of_unread (Wire.read?_eq_none_of_ne framed (List.append_nil _) fun whole =>
      present (List.append_right_eq_self.mp whole))

end Artifact

/-- A program that cannot be loaded from all its bytes either: a text is not well-formed and a function
is missing. -/
def Hollow.program : Program where
  main := some
    { Chunk.empty with
      constants := some #[Literal.constant (.string [0xFF])]
      globals := none
      explicit := none }
  functions := #[none]

namespace Artifact

theorem artifact_ends_by_itself_of_hollow :
    ∃ data, store Hollow.program = .ok data ∧ data.length = 34 ∧ load data = .error .malformed ∧
      load (data.take 5) = .error (.tooShort 5) ∧ load (data.take 33) = .error .malformed ∧
      load (data ++ [0]) = .error .malformed := by
  obtain ⟨data, stored, length, unread⟩ : ∃ data, store Hollow.program = .ok data ∧
      data.length = 34 ∧ load data = .error .malformed := ⟨_, rfl, by decide, by decide +kernel⟩
  obtain ⟨parts, longer⟩ := artifact_ends_by_itself stored (by rw [length]; decide)
  have proper {n : Nat} (short : n < 34) : (data.take n).length = n ∧ data.take n ≠ data := by
    have taken : (data.take n).length = n := by
      rw [List.length_take]
      omega
    exact ⟨taken, fun whole => by rw [whole] at taken; omega⟩
  refine ⟨data, stored, length, unread, ?_, ?_, longer [0] (by simp)⟩
  · rw [parts _ (List.take_prefix 5 data) (proper (by decide)).2, (proper (by decide)).1]
    rfl
  · rw [parts _ (List.take_prefix 33 data) (proper (by decide)).2, (proper (by decide)).1]
    rfl

end Artifact

end TableMachine
