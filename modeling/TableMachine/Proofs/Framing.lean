import TableMachine.Proofs.Items

/-! # Items end by themselves

What the reader takes for an item is framed: a head says how many bytes or items follow, or that an end
mark will. Framed bytes are never the beginning of other framed bytes, whatever either of them stand for,
so neither a part of an item nor an item with something behind it can be read as one. What was read is
also bounded: no container has more entries than the reader allows and no string more bytes than there
were.
-/

namespace TableMachine.Wire

open Item

variable {data rest head used bytes : Text} {major n fuel depth limit : Nat} {argument : Argument}
  {item : Item}

/-! ## Heads -/

/-- The bytes are a head, whatever follows them. -/
def IsHead (bytes : Text) (major : Nat) (argument : Argument) : Prop :=
  ∀ rest, readHead? (bytes ++ rest) = some (major, argument, rest)

theorem takeExactly?_eq_some {count : Nat} (taken : takeExactly? count data = some (bytes, rest)) :
    data = bytes ++ rest ∧ bytes.length = count := by
  simp only [takeExactly?] at taken
  split at taken
  · rename_i full
    cases taken
    exact ⟨(List.take_append_drop count data).symm, full⟩
  · cases taken

/-- A first byte with 24 to 27 in its low bits is followed by a number, whatever the number is. -/
theorem isHead_wide {b : UInt8} {count : Nat} (length : bytes.length = count)
    (wide : (b.toNat % 32 = 24 ∧ count = 1 ∧ b.toNat / 32 ≠ 7) ∨ (b.toNat % 32 = 25 ∧ count = 2) ∨
      (b.toNat % 32 = 26 ∧ count = 4) ∨ (b.toNat % 32 = 27 ∧ count = 8)) :
    IsHead (b :: bytes) (b.toNat / 32) (.given (b.toNat % 32) (natOf bytes)) := by
  intro more
  have taken := takeExactly?_append bytes more
  rw [length] at taken
  rcases wide with ⟨info, rfl, plain⟩ | ⟨info, rfl⟩ | ⟨info, rfl⟩ | ⟨info, rfl⟩
  · simp [readHead?, info, taken, plain]
  all_goals simp [readHead?, info, taken]

private theorem isHead_of_wide {b : UInt8} {tail : Text} {count : Nat}
    (wide : (b.toNat % 32 = 25 ∧ count = 2) ∨ (b.toNat % 32 = 26 ∧ count = 4) ∨
      (b.toNat % 32 = 27 ∧ count = 8))
    (read : (takeExactly? count tail).bind (fun (bytes, rest) =>
      some (b.toNat / 32, Argument.given (b.toNat % 32) (natOf bytes), rest)) =
        some (major, argument, rest)) :
    ∃ head, b :: tail = head ++ rest ∧ IsHead head major argument := by
  obtain ⟨⟨bytes, after⟩, taken, found⟩ := Option.bind_eq_some_iff.mp read
  obtain ⟨split, length⟩ := takeExactly?_eq_some taken
  cases found
  exact ⟨b :: bytes, by rw [split, List.cons_append], isHead_wide length (.inr wide)⟩

/-- What is read as a head is one. -/
theorem isHead_of_readHead? (read : readHead? data = some (major, argument, rest)) :
    ∃ head, data = head ++ rest ∧ IsHead head major argument := by
  cases data with
  | nil => simp [readHead?] at read
  | cons b tail =>
      simp only [readHead?] at read
      split at read
      · rename_i low
        cases read
        exact ⟨[b], rfl, fun more => by simp [readHead?, low]⟩
      · split at read
        · rename_i info
          obtain ⟨⟨bytes, after⟩, taken, found⟩ := Option.bind_eq_some_iff.mp read
          obtain ⟨split, length⟩ := takeExactly?_eq_some taken
          simp only at found
          split at found
          · cases found
          · rename_i allowed
            cases found
            refine ⟨b :: bytes, by rw [split, List.cons_append], fun more => ?_⟩
            have again := takeExactly?_append bytes more
            rw [length] at again
            simpa [readHead?, info, again] using allowed
        · rename_i info
          exact isHead_of_wide (.inl ⟨info, rfl⟩) read
        · rename_i info
          exact isHead_of_wide (.inr (.inl ⟨info, rfl⟩)) read
        · rename_i info
          exact isHead_of_wide (.inr (.inr ⟨info, rfl⟩)) read
        · rename_i info
          split at read
          · rename_i string
            cases read
            refine ⟨[b], rfl, fun more => ?_⟩
            simpa [readHead?, info] using string
          · cases read
        · cases read

/-- One head only stands at the beginning of given bytes. -/
theorem IsHead.unique {head' rest' : Text} {major' : Nat} {argument' : Argument}
    (first : IsHead head major argument) (second : IsHead head' major' argument')
    (same : head ++ rest = head' ++ rest') :
    head = head' ∧ rest = rest' ∧ major = major' ∧ argument = argument' := by
  have read := first rest
  rw [same, second rest'] at read
  simp only [Option.some.injEq, Prod.mk.injEq] at read
  obtain ⟨majors, arguments, rests⟩ := read
  subst rests
  exact ⟨List.append_cancel_right same, rfl, majors.symm, arguments.symm⟩

/-! ## Framed bytes -/

/-- What a head says will follow it. -/
inductive Content where
  | bytes (length : Nat)
  | items (count : Nat)
  /-- Items up to an end mark. -/
  | unstated
deriving DecidableEq

def contentOf? : Nat → Argument → Option Content
  | 0, .given _ _ | 1, .given _ _ | 7, .given _ _ => some (.items 0)
  | 2, .given _ n | 3, .given _ n => some (.bytes n)
  | 4, .given _ n => some (.items n)
  | 5, .given _ n => some (.items (2 * n))
  | 6, .given _ _ => some (.items 1)
  | 2, .open_ | 3, .open_ | 4, .open_ | 5, .open_ => some .unstated
  | _, _ => none

/-- The bytes are a head followed by what it says, all the way down. -/
inductive Framed : Text → Prop where
  | bytes {head content : Text} {major : Nat} {argument : Argument} (isHead : IsHead head major argument)
      (stated : contentOf? major argument = some (.bytes content.length)) : Framed (head ++ content)
  | items {head : Text} {parts : List Text} {major : Nat} {argument : Argument}
      (isHead : IsHead head major argument)
      (stated : contentOf? major argument = some (.items parts.length))
      (each : ∀ part ∈ parts, Framed part) : Framed (head ++ parts.flatten)
  | unstated {head : Text} {parts : List Text} {major : Nat} {argument : Argument}
      (isHead : IsHead head major argument) (stated : contentOf? major argument = some .unstated)
      (each : ∀ part ∈ parts, Framed part) : Framed (head ++ (parts.flatten ++ [endMark]))

theorem framed_of_isHead (isHead : IsHead head major argument)
    (stated : contentOf? major argument = some (.items 0)) : Framed head := by
  simpa using @Framed.items head [] major argument isHead stated (by simp)

theorem Framed.begins (framed : Framed bytes) :
    ∃ head tail major argument, bytes = head ++ tail ∧ IsHead head major argument := by
  cases framed with
  | bytes isHead => exact ⟨_, _, _, _, rfl, isHead⟩
  | items isHead => exact ⟨_, _, _, _, rfl, isHead⟩
  | unstated isHead => exact ⟨_, _, _, _, rfl, isHead⟩

/-- An end mark is no item. -/
theorem Framed.ne_endMark (framed : Framed bytes) (rest rest' : Text) :
    bytes ++ rest ≠ endMark :: rest' := by
  intro same
  obtain ⟨head, after, major, argument, rfl, isHead⟩ := framed.begins
  have read := isHead (after ++ rest)
  rw [← List.append_assoc, same] at read
  simp [readHead?, endMark] at read

/-- The bytes can be told from whatever follows them, whichever framed bytes they are compared with. -/
def Separate (bytes : Text) : Prop :=
  ∀ other rest rest', Framed other → bytes ++ rest = other ++ rest' → bytes = other

private theorem flatten_eq_of_separate {parts others : List Text} {rest rest' : Text}
    (each : ∀ part ∈ parts, Separate part) (framed : ∀ other ∈ others, Framed other)
    (count : parts.length = others.length) (same : parts.flatten ++ rest = others.flatten ++ rest') :
    parts.flatten = others.flatten := by
  induction parts generalizing others with
  | nil => simp [List.length_eq_zero_iff.mp count.symm]
  | cons part parts ih =>
      cases others with
      | nil => cases count
      | cons other others =>
          simp only [List.forall_mem_cons] at each framed
          simp only [List.flatten_cons, List.append_assoc] at same ⊢
          obtain rfl := each.1 other _ _ framed.1 same
          rw [ih each.2 framed.2 (Nat.succ.inj count) (List.append_cancel_left same)]

/-- An end mark is no item, so both lists end where the first of them does. -/
private theorem flatten_eq_of_endMark {parts others : List Text} {rest rest' : Text}
    (each : ∀ part ∈ parts, Framed part ∧ Separate part) (framed : ∀ other ∈ others, Framed other)
    (same : parts.flatten ++ endMark :: rest = others.flatten ++ endMark :: rest') :
    parts.flatten = others.flatten := by
  induction parts generalizing others with
  | nil =>
      cases others with
      | nil => rfl
      | cons other others =>
          simp only [List.flatten_nil, List.nil_append, List.flatten_cons, List.append_assoc] at same
          exact absurd same.symm ((List.forall_mem_cons.mp framed).1.ne_endMark _ _)
  | cons part parts ih =>
      simp only [List.forall_mem_cons] at each
      simp only [List.flatten_cons, List.append_assoc] at same ⊢
      cases others with
      | nil => exact absurd same (each.1.1.ne_endMark _ _)
      | cons other others =>
          simp only [List.forall_mem_cons] at framed
          simp only [List.flatten_cons, List.append_assoc] at same ⊢
          obtain rfl := each.1.2 other _ _ framed.1 same
          rw [ih each.2 framed.2 (List.append_cancel_left same)]

/-- No framed bytes are the beginning of others. -/
theorem Framed.separate (framed : Framed bytes) : Separate bytes := by
  -- Both begin with the same head, so the same sort of content follows in both.
  induction framed with
  | bytes isHead stated =>
      intro other rest rest' framed same
      cases framed with
      | bytes isHead' stated' =>
          simp only [List.append_assoc] at same
          obtain ⟨rfl, after, rfl, rfl⟩ := isHead.unique isHead' same
          have lengths := Content.bytes.inj (Option.some.inj (stated.symm.trans stated'))
          rw [(List.append_inj after lengths).1]
      | items isHead' stated' | unstated isHead' stated' =>
          simp only [List.append_assoc] at same
          obtain ⟨_, _, rfl, rfl⟩ := isHead.unique isHead' same
          cases stated.symm.trans stated'
  | items isHead stated each ih =>
      intro other rest rest' framed same
      cases framed with
      | items isHead' stated' each' =>
          simp only [List.append_assoc] at same
          obtain ⟨rfl, after, rfl, rfl⟩ := isHead.unique isHead' same
          have counts := Content.items.inj (Option.some.inj (stated.symm.trans stated'))
          rw [flatten_eq_of_separate ih each' counts after]
      | bytes isHead' stated' | unstated isHead' stated' =>
          simp only [List.append_assoc] at same
          obtain ⟨_, _, rfl, rfl⟩ := isHead.unique isHead' same
          cases stated.symm.trans stated'
  | unstated isHead stated each ih =>
      intro other rest rest' framed same
      cases framed with
      | unstated isHead' stated' each' =>
          simp only [List.append_assoc] at same
          obtain ⟨rfl, after, rfl, rfl⟩ := isHead.unique isHead' same
          rw [flatten_eq_of_endMark (fun part member => ⟨each part member, ih part member⟩) each' after]
      | bytes isHead' stated' | items isHead' stated' =>
          simp only [List.append_assoc] at same
          obtain ⟨_, _, rfl, rfl⟩ := isHead.unique isHead' same
          cases stated.symm.trans stated'

/-! ## What is read -/

/-- No container in the item has more entries than the reader allows, and no string more than `limit`
bytes. -/
inductive Item.Sized (limit : Nat) : Item → Prop where
  | unsigned (n : Nat) : Sized limit (.unsigned n)
  | negative (n : Nat) : Sized limit (.negative n)
  | bytes {content : Text} (length : content.length ≤ limit) : Sized limit (.bytes content)
  | text {pieces : List Text} (length : pieces.flatten.length ≤ limit) : Sized limit (.text pieces)
  | array {items : List Item} (few : items.length ≤ maxEntries)
      (each : ∀ item ∈ items, item.Sized limit) : Sized limit (.array items)
  | map {entries : List (Item × Item)} (few : entries.length ≤ maxEntries)
      (keys : ∀ entry ∈ entries, entry.1.Sized limit)
      (values : ∀ entry ∈ entries, entry.2.Sized limit) : Sized limit (.map entries)
  | tag {content : Item} (number : Nat) (inner : content.Sized limit) : Sized limit (.tag number content)
  | simple (code : Nat) : Sized limit (.simple code)
  | float (value : Number) : Sized limit (.float value)

theorem primitive_sized (info n : Nat) : (primitive info n).Sized limit := by
  unfold primitive
  split
  · exact .float _
  · exact .float _
  · exact .float _
  · exact .simple _

theorem pairUp?_sized {items : List Item} {entries : List (Item × Item)}
    (paired : pairUp? items = some entries) (each : ∀ item ∈ items, item.Sized limit) :
    items.length = 2 * entries.length ∧ (∀ entry ∈ entries, entry.1.Sized limit) ∧
      ∀ entry ∈ entries, entry.2.Sized limit := by
  fun_induction pairUp? items generalizing entries with
  | case1 =>
      cases paired
      simp
  | case2 => cases paired
  | case3 key value rest ih =>
      obtain ⟨others, found, rfl⟩ := Option.map_eq_some_iff.mp paired
      simp only [List.forall_mem_cons] at each ⊢
      obtain ⟨length, keys, values⟩ := ih found each.2.2
      refine ⟨?_, ⟨each.1, keys⟩, each.2.1, values⟩
      simp only [List.length_cons, length]
      omega

theorem readString?_eq_some (read : readString? n data = some (bytes, rest)) :
    data = bytes ++ rest ∧ bytes.length = n := by
  unfold readString? at read
  split at read
  · cases read
  · exact takeExactly?_eq_some read

theorem readPieces?_framed {pieces : List Text} (strings : major = 2 ∨ major = 3)
    (done : readPieces? major fuel data = some (pieces, rest)) :
    ∃ parts : List Text, data = parts.flatten ++ endMark :: rest ∧ (∀ part ∈ parts, Framed part) ∧
      pieces.flatten.length ≤ parts.flatten.length := by
  induction fuel generalizing data pieces with
  | zero => cases done
  | succ fuel ih =>
      unfold readPieces? at done
      split at done
      · cases done
      · split at done
        · rename_i mark
          cases done
          exact ⟨[], by simp [mark], by simp, by simp⟩
        · split at done
          · rename_i m info n after read
            split at done
            · cases done
            · rename_i same
              obtain ⟨⟨piece, after'⟩, string, done⟩ := Option.bind_eq_some_iff.mp done
              obtain ⟨⟨pieces', after''⟩, others, done⟩ := Option.bind_eq_some_iff.mp done
              cases done
              obtain ⟨head, split, isHead⟩ := isHead_of_readHead? read
              obtain ⟨rfl, length⟩ := readString?_eq_some string
              obtain ⟨parts, rfl, each, short⟩ := ih others
              have stated : contentOf? m (.given info n) = some (.bytes piece.length) := by
                rw [Decidable.not_not.mp same, length]
                rcases strings with rfl | rfl <;> rfl
              refine ⟨(head ++ piece) :: parts, by simp [split], ?_, ?_⟩
              · exact List.forall_mem_cons.mpr ⟨.bytes isHead stated, each⟩
              · simp only [List.flatten_cons, List.length_append]
                omega
          · cases done

private theorem length_le_of_append (within_ : (used ++ rest).length ≤ limit) : rest.length ≤ limit := by
  rw [List.length_append] at within_
  omega

mutual

theorem readItem?_framed {fuel depth limit : Nat} {data rest : Text} {item : Item}
    (done : readItem? fuel depth data = some (item, rest))
    (within_ : data.length ≤ limit) :
    ∃ used, data = used ++ rest ∧ Framed used ∧ item.Sized limit := by
  cases fuel with
  | zero =>
      unfold readItem? at done
      cases done
  | succ fuel =>
      unfold readItem? at done
      split at done
      · cases done
      · rename_i read
        cases done
        obtain ⟨head, rfl, isHead⟩ := isHead_of_readHead? read
        exact ⟨_, rfl, framed_of_isHead isHead rfl, .unsigned _⟩
      · rename_i read
        cases done
        obtain ⟨head, rfl, isHead⟩ := isHead_of_readHead? read
        exact ⟨_, rfl, framed_of_isHead isHead rfl, .negative _⟩
      · rename_i read
        obtain ⟨⟨content, after⟩, string, done⟩ := Option.bind_eq_some_iff.mp done
        cases done
        obtain ⟨head, rfl, isHead⟩ := isHead_of_readHead? read
        obtain ⟨rfl, rfl⟩ := readString?_eq_some string
        simp only [List.length_append] at within_
        exact ⟨head ++ content, by simp, .bytes isHead rfl, .bytes (by omega)⟩
      · rename_i read
        obtain ⟨⟨pieces, after⟩, string, done⟩ := Option.bind_eq_some_iff.mp done
        cases done
        obtain ⟨head, split, isHead⟩ := isHead_of_readHead? read
        obtain ⟨parts, rfl, each, short⟩ := readPieces?_framed (.inl rfl) string
        simp only [split, List.length_append] at within_
        exact ⟨_, by simp [split], .unstated isHead rfl each, .bytes (by omega)⟩
      · rename_i read
        obtain ⟨⟨content, after⟩, string, done⟩ := Option.bind_eq_some_iff.mp done
        cases done
        obtain ⟨head, rfl, isHead⟩ := isHead_of_readHead? read
        obtain ⟨rfl, rfl⟩ := readString?_eq_some string
        simp only [List.length_append] at within_
        exact ⟨head ++ content, by simp, .bytes isHead rfl, .text (by simpa using by omega)⟩
      · rename_i read
        obtain ⟨⟨pieces, after⟩, string, done⟩ := Option.bind_eq_some_iff.mp done
        cases done
        obtain ⟨head, split, isHead⟩ := isHead_of_readHead? read
        obtain ⟨parts, rfl, each, short⟩ := readPieces?_framed (.inr rfl) string
        simp only [split, List.length_append] at within_
        exact ⟨_, by simp [split], .unstated isHead rfl each, .text (by omega)⟩
      · rename_i read
        split at done
        · cases done
        · rename_i fits
          obtain ⟨⟨items, after⟩, counted, done⟩ := Option.bind_eq_some_iff.mp done
          cases done
          obtain ⟨head, rfl, isHead⟩ := isHead_of_readHead? read
          obtain ⟨parts, rfl, rfl, framed, length, each⟩ :=
            readCounted?_framed counted (length_le_of_append within_)
          simp only [Bool.or_eq_true, decide_eq_true_eq, not_or, Nat.not_lt] at fits
          exact ⟨_, by simp, .items isHead rfl framed, .array (length ▸ fits.2) each⟩
      · rename_i read
        split at done
        · cases done
        · obtain ⟨⟨items, after⟩, opened, done⟩ := Option.bind_eq_some_iff.mp done
          simp only at done
          split at done
          · cases done
          · rename_i few
            cases done
            obtain ⟨head, rfl, isHead⟩ := isHead_of_readHead? read
            obtain ⟨parts, rfl, framed, each⟩ :=
              readOpen?_framed opened (length_le_of_append within_)
            exact ⟨_, by simp, .unstated isHead rfl framed, .array (Nat.not_lt.mp few) each⟩
      · rename_i read
        split at done
        · cases done
        · rename_i fits
          obtain ⟨⟨items, after⟩, counted, done⟩ := Option.bind_eq_some_iff.mp done
          obtain ⟨entries, paired, done⟩ := Option.bind_eq_some_iff.mp done
          cases done
          obtain ⟨head, rfl, isHead⟩ := isHead_of_readHead? read
          obtain ⟨parts, rfl, count, framed, length, each⟩ :=
            readCounted?_framed counted (length_le_of_append within_)
          obtain ⟨pairs, keys, values⟩ := pairUp?_sized paired each
          simp only [Bool.or_eq_true, decide_eq_true_eq, not_or, Nat.not_lt] at fits
          exact ⟨_, by simp, .items isHead (by rw [count]; rfl) framed, .map (by omega) keys values⟩
      · rename_i read
        split at done
        · cases done
        · obtain ⟨⟨items, after⟩, opened, done⟩ := Option.bind_eq_some_iff.mp done
          obtain ⟨entries, paired, done⟩ := Option.bind_eq_some_iff.mp done
          split at done
          · cases done
          · rename_i few
            cases done
            obtain ⟨head, rfl, isHead⟩ := isHead_of_readHead? read
            obtain ⟨parts, rfl, framed, each⟩ :=
              readOpen?_framed opened (length_le_of_append within_)
            obtain ⟨_, keys, values⟩ := pairUp?_sized paired each
            exact ⟨_, by simp, .unstated isHead rfl framed, .map (Nat.not_lt.mp few) keys values⟩
      · rename_i read
        generalize (if startsWithTag _ then depth + 1 else depth) = level at done
        simp only at done
        split at done
        · cases done
        · obtain ⟨⟨content, after⟩, inner, done⟩ := Option.bind_eq_some_iff.mp done
          cases done
          obtain ⟨head, rfl, isHead⟩ := isHead_of_readHead? read
          obtain ⟨used, rfl, framed, sized⟩ := readItem?_framed inner (length_le_of_append within_)
          exact ⟨head ++ [used].flatten, by simp, .items isHead rfl (by simpa using framed),
            .tag _ sized⟩
      · rename_i read
        cases done
        obtain ⟨head, rfl, isHead⟩ := isHead_of_readHead? read
        exact ⟨_, rfl, framed_of_isHead isHead rfl, primitive_sized _ _⟩
      · cases done
termination_by fuel

theorem readCounted?_framed {fuel depth count limit : Nat} {data rest : Text} {items : List Item}
    (done : readCounted? fuel depth count data = some (items, rest)) (within_ : data.length ≤ limit) :
    ∃ parts : List Text, data = parts.flatten ++ rest ∧ parts.length = count ∧
      (∀ part ∈ parts, Framed part) ∧ items.length = count ∧ ∀ item ∈ items, item.Sized limit := by
  cases count with
  | zero =>
      unfold readCounted? at done
      cases done
      exact ⟨[], by simp⟩
  | succ count =>
      cases fuel with
      | zero =>
          unfold readCounted? at done
          cases done
      | succ fuel =>
          unfold readCounted? at done
          obtain ⟨⟨first, after⟩, read, done⟩ := Option.bind_eq_some_iff.mp done
          obtain ⟨⟨others, after'⟩, counted, done⟩ := Option.bind_eq_some_iff.mp done
          cases done
          obtain ⟨used, rfl, framed, sized⟩ := readItem?_framed read within_
          obtain ⟨parts, rfl, rfl, framed', length, each⟩ :=
            readCounted?_framed counted (length_le_of_append within_)
          exact ⟨used :: parts, by simp, rfl, List.forall_mem_cons.mpr ⟨framed, framed'⟩,
            congrArg Nat.succ length, List.forall_mem_cons.mpr ⟨sized, each⟩⟩
termination_by fuel

theorem readOpen?_framed {fuel depth limit : Nat} {data rest : Text} {items : List Item}
    (done : readOpen? fuel depth data = some (items, rest))
    (within_ : data.length ≤ limit) :
    ∃ parts : List Text, data = parts.flatten ++ endMark :: rest ∧ (∀ part ∈ parts, Framed part) ∧
      ∀ item ∈ items, item.Sized limit := by
  cases fuel with
  | zero =>
      unfold readOpen? at done
      cases done
  | succ fuel =>
      unfold readOpen? at done
      split at done
      · cases done
      · split at done
        · rename_i mark
          cases done
          exact ⟨[], by simp [mark]⟩
        · obtain ⟨⟨first, after⟩, read, done⟩ := Option.bind_eq_some_iff.mp done
          obtain ⟨⟨others, after'⟩, opened, done⟩ := Option.bind_eq_some_iff.mp done
          cases done
          obtain ⟨used, split, framed, sized⟩ := readItem?_framed read within_
          rw [split] at within_
          obtain ⟨parts, rfl, framed', each⟩ := readOpen?_framed opened (length_le_of_append within_)
          exact ⟨used :: parts, by simp [split], List.forall_mem_cons.mpr ⟨framed, framed'⟩,
            List.forall_mem_cons.mpr ⟨sized, each⟩⟩
termination_by fuel

end

theorem read?_framed (done : read? data = some item) : Framed data ∧ item.Sized data.length := by
  unfold read? at done
  split at done
  · rename_i read
    cases done
    obtain ⟨used, split, framed, sized⟩ := readItem?_framed read (Nat.le_refl _)
    rw [List.append_nil] at split
    exact ⟨split ▸ framed, sized⟩
  · cases done

end TableMachine.Wire
