import Reshape.Proofs.Json.Scalar

/-!
# Containers in JSON text

Items and entries are read back together once each of them is read back alone. One relation holds
both what is read and what is refused for nesting too deep, so that a container fails with the first
of its parts that does.
-/

namespace Reshape

/-- Values that JSON text keeps as they are: whole numbers are signed or unsigned words, no other
numbers occur, and no object has a key twice. -/
inductive Value.IsExact : Value → Prop
  | null : IsExact .null
  | bool (flag : Bool) : IsExact (.bool flag)
  | integer {n : Int} (hlow : -2 ^ 63 ≤ n) (hhigh : n < 2 ^ 64) : IsExact (.integer n)
  | string (text : String) : IsExact (.string text)
  | array {items : List Value} (hitems : ∀ item ∈ items, IsExact item) : IsExact (.array items)
  | object {fields : Fields Value} (hkeys : fields.keys.Nodup)
      (hentries : ∀ field ∈ fields, IsExact field.2) : IsExact (.object fields)

namespace Json

open Text

/-- What comes of reading the text of a value in front of `rest`: the value where it fits, and a
fault of nesting where it does not. -/
inductive Reads {α : Type} (fits : Prop) (value : α) (rest : List Char) :
    Except Failure (α × Input) → Prop
  | value (hfits : fits) (offset : Nat) : Reads fits value rest (.ok (value, ⟨rest, offset⟩))
  | tooDeep (hfits : ¬ fits) (offset : Nat) :
      Reads fits value rest (.error (.nestedTooDeep, offset))

section Reads

variable {α β : Type} {fits more : Prop} {value : α} {other : β} {middle rest : List Char}
  {result : Except Failure (α × Input)}

theorem Reads.congr (hresult : Reads fits value rest result) (hiff : fits ↔ more) :
    Reads more value rest result := by
  cases hresult with
  | value hfits offset => exact .value (hiff.mp hfits) offset
  | tooDeep hfits offset => exact .tooDeep (mt hiff.mpr hfits) offset

theorem Reads.bind {next : α × Input → Except Failure (β × Input)}
    (hresult : Reads fits value middle result)
    (hnext : ∀ offset, Reads more other rest (next (value, ⟨middle, offset⟩))) :
    Reads (fits ∧ more) other rest (result >>= next) := by
  cases hresult with
  | value hfits offset => exact (hnext offset).congr (by simp [hfits])
  | tooDeep hfits offset => exact .tooDeep (fun hboth => hfits hboth.1) offset

theorem Reads.map (f : α → β) (hresult : Reads fits value rest result) :
    Reads fits (f value) rest (result >>= fun found => .ok (f found.1, found.2)) := by
  cases hresult with
  | value hfits offset => exact .value hfits offset
  | tooDeep hfits offset => exact .tooDeep hfits offset

end Reads

@[simp] theorem skipBlanks_cons {c : Char} (hblank : Input.isBlank c = false)
    (chars : List Char) (offset : Nat) :
    Input.skipBlanks ⟨c :: chars, offset⟩ = ⟨c :: chars, offset⟩ := by
  simp [Input.skipBlanks, hblank]

/-- The text of a value begins neither with a blank nor as the end of an array. -/
theorem exists_encode_eq_cons {value : Value} (hexact : value.IsExact) :
    ∃ c more, encode value = c :: more ∧ Input.isBlank c = false ∧ c ≠ ']' := by
  cases hexact with
  | null => exact ⟨_, _, rfl, by decide⟩
  | bool flag => cases flag <;> exact ⟨_, _, rfl, by decide⟩
  | @integer n =>
      rw [encode_integer]
      split
      · exact ⟨_, _, rfl, by decide⟩
      · obtain ⟨c, more, hrun, hdigit⟩ := exists_toDigits_eq_cons n.natAbs
        refine ⟨c, more, hrun, ?_, ne_of_isDigit hdigit (by decide)⟩
        simp [Input.isBlank, ne_of_isDigit hdigit]
  | string text => exact ⟨_, _, rfl, by decide⟩
  | @array items => cases items <;> exact ⟨_, _, rfl, by decide⟩
  | @object fields => cases fields <;> exact ⟨_, _, rfl, by decide⟩

theorem ends_encodeItems (items : List Value) (rest : List Char) :
    Ends (encodeItems items ++ rest) := by
  cases items <;> simp [encodeItems, Ends]

theorem ends_encodeEntries (fields : Fields Value) (rest : List Char) :
    Ends (encodeEntries fields ++ rest) := by
  cases fields <;> simp [encodeEntries, Ends]

section Items

variable {readItem : Input → Except Failure (Value × Input)} {fits : Value → Prop}
  {items : List Value}

theorem length_le_length_encodeItems (items : List Value) :
    items.length ≤ (encodeItems items).length := by
  induction items with
  | nil => exact Nat.zero_le _
  | cons item more ih =>
      rw [encodeItems]
      simp only [List.length_cons, List.length_append]
      omega

theorem readItems_first {c : Char} (hblank : Input.isBlank c = false) (hclose : c ≠ ']')
    (fuel : Nat) (chars : List Char) (offset : Nat) :
    readItems readItem (fuel + 1) [] ⟨c :: chars, offset⟩ =
      (readItem ⟨c :: chars, offset⟩ >>= fun found =>
        readItems readItem fuel [found.1] found.2) := by
  simp [readItems, hblank]

theorem readItems_comma {c : Char} (hblank : Input.isBlank c = false) (hclose : c ≠ ']')
    {read : List Value} (hread : read ≠ []) (fuel : Nat) (chars : List Char) (offset : Nat) :
    readItems readItem (fuel + 1) read ⟨',' :: c :: chars, offset⟩ =
      (readItem ⟨c :: chars, offset + 1⟩ >>= fun found =>
        readItems readItem fuel (found.1 :: read) found.2) := by
  have hcomma : Input.isBlank ',' = false := by decide
  simp [readItems, hcomma, hblank, hclose, hread]

/-- Items that are read one by one are read together; the first that does not fit ends it. -/
theorem reads_readItems (hexact : ∀ item ∈ items, item.IsExact)
    (hitems : ∀ item ∈ items, ∀ rest offset, Ends rest →
      Reads (fits item) item rest (readItem ⟨encode item ++ rest, offset⟩))
    {fuel : Nat} (hfuel : items.length < fuel) {read : List Value} (hread : read ≠ [])
    (rest : List Char) (offset : Nat) :
    Reads (∀ item ∈ items, fits item) (read.reverse ++ items) rest
      (readItems readItem fuel read ⟨encodeItems items ++ rest, offset⟩) := by
  -- each comma takes one unit of fuel, and what is read grows at its front
  induction items generalizing fuel read offset with
  | nil =>
      obtain ⟨fuel, rfl⟩ := Nat.exists_eq_succ_of_ne_zero (Nat.ne_zero_of_lt hfuel)
      rw [List.append_nil]
      exact .value nofun (offset + 1)
  | cons item more ih =>
      obtain ⟨fuel, rfl⟩ := Nat.exists_eq_succ_of_ne_zero (Nat.ne_zero_of_lt hfuel)
      rw [List.forall_mem_cons] at hexact hitems
      obtain ⟨c, chars, htext, hblank, hclose⟩ := exists_encode_eq_cons hexact.1
      have hitem := hitems.1 (encodeItems more ++ rest) (offset + 1) (ends_encodeItems more rest)
      have hmore := ih hexact.2 hitems.2 (Nat.lt_of_succ_lt_succ hfuel) (List.cons_ne_nil item read)
      rw [encodeItems, List.append_assoc, List.cons_append]
      rw [htext, List.cons_append] at hitem ⊢
      rw [readItems_comma hblank hclose hread]
      rw [List.reverse_cons, List.append_assoc] at hmore
      exact (hitem.bind hmore).congr List.forall_mem_cons.symm

theorem exists_reads_array (hexact : ∀ item ∈ items, item.IsExact)
    (hitems : ∀ item ∈ items, ∀ rest offset, Ends rest →
      Reads (fits item) item rest (readItem ⟨encode item ++ rest, offset⟩)) :
    ∃ chars, encode (.array items) = '[' :: chars ∧ ∀ rest fuel offset, chars.length ≤ fuel →
      Reads (∀ item ∈ items, fits item) items rest
        (readItems readItem (fuel + 1) [] ⟨chars ++ rest, offset⟩) := by
  cases items with
  | nil => exact ⟨[']'], rfl, fun _ _ offset _ => .value nofun (offset + 1)⟩
  | cons item more =>
      refine ⟨encode item ++ encodeItems more, rfl, fun rest fuel offset hfuel => ?_⟩
      rw [List.forall_mem_cons] at hexact hitems
      obtain ⟨c, chars, htext, hblank, hclose⟩ := exists_encode_eq_cons hexact.1
      have hlength : more.length < fuel := by
        have hmore := length_le_length_encodeItems more
        rw [htext, List.cons_append, List.length_cons, List.length_append] at hfuel
        omega
      have hitem := hitems.1 (encodeItems more ++ rest) offset (ends_encodeItems more rest)
      have hmore := reads_readItems hexact.2 hitems.2 hlength (List.cons_ne_nil item []) rest
      rw [List.append_assoc]
      rw [htext, List.cons_append] at hitem ⊢
      rw [readItems_first hblank hclose]
      exact (hitem.bind hmore).congr List.forall_mem_cons.symm

end Items

section Entries

theorem length_le_length_encodeEntries (fields : Fields Value) :
    fields.length ≤ (encodeEntries fields).length := by
  induction fields with
  | nil => exact Nat.zero_le _
  | cons field more ih =>
      rw [encodeEntries]
      simp only [List.length_cons, List.length_append]
      omega

section Steps

variable (readEntry : Input → Except Failure (Value × Input)) (key : String) (fuel : Nat)
  (chars : List Char) (offset : Nat)

theorem readEntries_first :
    ∃ next, readEntries readEntry (fuel + 1) true [] ⟨encodeString key ++ ':' :: chars, offset⟩ =
      (readEntry ⟨chars, next⟩ >>= fun found =>
        readEntries readEntry fuel false [(key, found.1)] found.2) := by
  have hquote : Input.isBlank '"' = false := by decide
  have hcolon : Input.isBlank ':' = false := by decide
  obtain ⟨behind, hkey⟩ := readString_stringTail (':' :: chars) (offset + 1) key
  refine ⟨behind + 1, ?_⟩
  rw [encodeString_append]
  simp [readEntries, readColon, hquote, hcolon, hkey, Fields.insert, bind, Except.bind]

theorem readEntries_comma (read : Fields Value) :
    ∃ next, readEntries readEntry (fuel + 1) false read
        ⟨',' :: (encodeString key ++ ':' :: chars), offset⟩ =
      (readEntry ⟨chars, next⟩ >>= fun found =>
        readEntries readEntry fuel false (read.insert key found.1) found.2) := by
  have hcomma : Input.isBlank ',' = false := by decide
  have hquote : Input.isBlank '"' = false := by decide
  have hcolon : Input.isBlank ':' = false := by decide
  obtain ⟨behind, hkey⟩ := readString_stringTail (':' :: chars) (offset + 2) key
  refine ⟨behind + 1, ?_⟩
  rw [encodeString_append]
  simp [readEntries, readColon, hcomma, hquote, hcolon, hkey, bind, Except.bind]

end Steps

variable {readEntry : Input → Except Failure (Value × Input)} {fits : String × Value → Prop}
  {fields : Fields Value}

/-- Entries under new keys that are read one by one are read together, in their order. -/
theorem reads_readEntries (hentries : ∀ field ∈ fields, ∀ rest offset, Ends rest →
      Reads (fits field) field.2 rest (readEntry ⟨encode field.2 ++ rest, offset⟩))
    {read : Fields Value} (hkeys : (Fields.keys (read ++ fields)).Nodup)
    {fuel : Nat} (hfuel : fields.length < fuel) (rest : List Char) (offset : Nat) :
    Reads (∀ field ∈ fields, fits field) (read ++ fields) rest
      (readEntries readEntry fuel false read ⟨encodeEntries fields ++ rest, offset⟩) := by
  -- the keys still to come are new to what is read, so that it grows at its end
  induction fields generalizing fuel read offset with
  | nil =>
      obtain ⟨fuel, rfl⟩ := Nat.exists_eq_succ_of_ne_zero (Nat.ne_zero_of_lt hfuel)
      rw [List.append_nil]
      exact .value nofun (offset + 1)
  | cons field more ih =>
      obtain ⟨key, entry⟩ := field
      obtain ⟨fuel, rfl⟩ := Nat.exists_eq_succ_of_ne_zero (Nat.ne_zero_of_lt hfuel)
      rw [List.forall_mem_cons] at hentries
      have hnew : key ∉ read.keys := by
        rw [Fields.keys, List.map_append] at hkeys
        exact fun hmem => (List.nodup_append.mp hkeys).2.2 key hmem key List.mem_cons_self rfl
      have hwritten : read ++ (key, entry) :: more = read.insert key entry ++ more := by
        rw [Fields.insert_of_not_mem hnew, List.append_assoc, List.singleton_append]
      rw [hwritten] at hkeys ⊢
      obtain ⟨next, hstep⟩ := readEntries_comma readEntry key fuel
        (encode entry ++ (encodeEntries more ++ rest)) offset read
      have hentry := hentries.1 (encodeEntries more ++ rest) next (ends_encodeEntries more rest)
      have hmore := ih hentries.2 hkeys (Nat.lt_of_succ_lt_succ hfuel)
      rw [encodeEntries]
      simp only [List.append_assoc, List.cons_append]
      rw [hstep]
      exact (hentry.bind hmore).congr (by rw [List.forall_mem_cons])

theorem exists_reads_object (hentries : ∀ field ∈ fields, ∀ rest offset, Ends rest →
      Reads (fits field) field.2 rest (readEntry ⟨encode field.2 ++ rest, offset⟩))
    (hkeys : (Fields.keys fields).Nodup) :
    ∃ chars, encode (.object fields) = '{' :: chars ∧ ∀ rest fuel offset, chars.length ≤ fuel →
      Reads (∀ field ∈ fields, fits field) fields rest
        (readEntries readEntry (fuel + 1) true [] ⟨chars ++ rest, offset⟩) := by
  cases fields with
  | nil => exact ⟨['}'], rfl, fun _ _ offset _ => .value nofun (offset + 1)⟩
  | cons field more =>
      obtain ⟨key, entry⟩ := field
      refine ⟨encodeString key ++ ':' :: encode entry ++ encodeEntries more, rfl,
        fun rest fuel offset hfuel => ?_⟩
      rw [List.forall_mem_cons] at hentries
      have hlength : more.length < fuel := by
        have hmore := length_le_length_encodeEntries more
        simp only [List.length_append, List.length_cons] at hfuel
        omega
      obtain ⟨next, hstep⟩ := readEntries_first readEntry key fuel
        (encode entry ++ (encodeEntries more ++ rest)) offset
      have hentry := hentries.1 (encodeEntries more ++ rest) next (ends_encodeEntries more rest)
      have hwritten : (Fields.keys ([(key, entry)] ++ more)).Nodup := hkeys
      have hmore := reads_readEntries hentries.2 hwritten hlength rest
      simp only [List.append_assoc, List.cons_append]
      rw [hstep]
      exact (hentry.bind hmore).congr (by rw [List.forall_mem_cons])

end Entries

end Json

end Reshape
