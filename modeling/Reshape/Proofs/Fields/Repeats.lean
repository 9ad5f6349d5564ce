import Mathlib.Data.List.Induction
import Reshape.Proofs.Fields
import Reshape.Proofs.List

/-!
# Keys given again

Entries written one after the other leave one for each key: at the place of the first entry with
the key, and with what the last one has. Which ones are left is decided by the keys alone, so that
values made from all entries and then written are those made from the entries that are left.
-/

namespace Reshape.Fields

variable {α β ε : Type} {entries : List (String × α)} {fields : Fields α} {key : String} {entry : α}
  {field : String × α}

/-- An entry of a list with no other one under its key behind it. -/
def IsLast (field : String × α) (entries : List (String × α)) : Prop :=
  ∃ before after, entries = before ++ field :: after ∧ field.1 ∉ keys after

/-- What is left of entries when all are written: each key once, in the order in which keys are
first given, with the last entry that is given under it. -/
structure Settled (entries : List (String × α)) (fields : Fields α) : Prop where
  distinct : fields.keys.Nodup
  ordered : fields.keys.Pairwise fun first second =>
    (keys entries).idxOf first < (keys entries).idxOf second
  mem_iff : ∀ field, field ∈ fields ↔ IsLast field entries

theorem ofEntries_append_singleton (entries : List (String × α)) (key : String) (entry : α) :
    ofEntries (entries ++ [(key, entry)]) = (ofEntries entries).insert key entry := by
  rw [ofEntries, List.foldl_append]
  rfl

/-! ### One entry more -/

theorem mem_iff_get? (hkeys : fields.keys.Nodup) :
    field ∈ fields ↔ fields.get? field.1 = some field.2 :=
  ⟨get?_of_mem hkeys, mem_of_get?⟩

theorem nodup_keys_insert (hkeys : fields.keys.Nodup) (key : String) (entry : α) :
    (fields.insert key entry).keys.Nodup := by
  rw [keys_insert]
  split
  · exact hkeys
  · next hnew =>
      exact pairwise_append_singleton hkeys fun other hmem heq => hnew (heq ▸ hmem)

theorem mem_insert_iff (hkeys : fields.keys.Nodup) :
    field ∈ fields.insert key entry ↔
      field = (key, entry) ∨ field.1 ≠ key ∧ field ∈ fields := by
  rw [mem_iff_get? (nodup_keys_insert hkeys key entry), mem_iff_get? hkeys, get?_insert]
  by_cases hkey : field.1 = key
  · simp [hkey, Prod.ext_iff, eq_comm]
  · simp [hkey, Prod.ext_iff]

theorem isLast_append_singleton_iff :
    IsLast field (entries ++ [(key, entry)]) ↔
      field = (key, entry) ∨ field.1 ≠ key ∧ IsLast field entries := by
  constructor
  · -- what stands behind the entry is nothing, or ends with the new entry
    rintro ⟨before, after, hsplit, hlast⟩
    rcases List.eq_nil_or_concat after with rfl | ⟨others, other, rfl⟩
    · exact Or.inl (List.singleton_inj.mp (List.append_inj_right' hsplit rfl)).symm
    · rw [List.concat_eq_append, ← List.cons_append, ← List.append_assoc] at hsplit
      obtain ⟨hentries, hother⟩ := List.append_inj' hsplit rfl
      obtain rfl : (key, entry) = other := List.singleton_inj.mp hother
      rw [keys, List.concat_eq_append, List.map_append, List.mem_append, not_or] at hlast
      exact Or.inr ⟨by simpa using hlast.2, before, others, hentries, hlast.1⟩
  · rintro (rfl | ⟨hkey, before, after, rfl, hlast⟩)
    · exact ⟨entries, [], rfl, List.not_mem_nil⟩
    · refine ⟨before, after ++ [(key, entry)], by simp, ?_⟩
      rw [keys, List.map_append, List.mem_append, not_or]
      exact ⟨hlast, by simpa using hkey⟩

theorem exists_isLast (hkey : key ∈ keys entries) : ∃ entry, IsLast (key, entry) entries := by
  induction entries using List.reverseRecOn with
  | nil => cases hkey
  | append_singleton entries last ih =>
      by_cases hlast : key = last.1
      · exact ⟨last.2, isLast_append_singleton_iff.mpr (Or.inl (by rw [hlast]))⟩
      · rw [keys, List.map_append, List.mem_append] at hkey
        obtain ⟨entry, hentry⟩ := ih (hkey.resolve_right (by simpa using hlast))
        exact ⟨entry, isLast_append_singleton_iff.mpr (Or.inr ⟨hlast, hentry⟩)⟩

theorem IsLast.mem (hlast : IsLast field entries) : field ∈ entries := by
  obtain ⟨before, after, rfl, -⟩ := hlast
  exact List.mem_append_right before List.mem_cons_self

namespace Settled

theorem nil : Settled ([] : List (String × α)) [] := by
  refine ⟨List.nodup_nil, List.Pairwise.nil, fun field => ?_⟩
  simp [IsLast]

theorem mem_keys_iff (hsettled : Settled entries fields) :
    key ∈ fields.keys ↔ key ∈ keys entries := by
  constructor
  · intro hkey
    obtain ⟨field, hfield, rfl⟩ := List.mem_map.mp hkey
    exact List.mem_map_of_mem ((hsettled.mem_iff field).mp hfield).mem
  · intro hkey
    obtain ⟨entry, hlast⟩ := exists_isLast hkey
    exact List.mem_map_of_mem ((hsettled.mem_iff (key, entry)).mpr hlast)

/-- What is written behind the entries moves no key that they have. -/
theorem ordered_append (hsettled : Settled entries fields) (rest : List String) :
    fields.keys.Pairwise fun first second =>
      (keys entries ++ rest).idxOf first < (keys entries ++ rest).idxOf second := by
  refine hsettled.ordered.imp_of_mem fun hfirst hsecond hlt => ?_
  rwa [List.idxOf_append_of_mem (hsettled.mem_keys_iff.mp hfirst),
    List.idxOf_append_of_mem (hsettled.mem_keys_iff.mp hsecond)]

theorem insert (hsettled : Settled entries fields) (key : String) (entry : α) :
    Settled (entries ++ [(key, entry)]) (fields.insert key entry) where
  distinct := nodup_keys_insert hsettled.distinct key entry
  ordered := by
    rw [keys_insert, keys, List.map_append]
    split
    · exact hsettled.ordered_append [key]
    · next hnew =>
        refine pairwise_append_singleton (hsettled.ordered_append [key]) fun first hfirst => ?_
        have hold : first ∈ keys entries := hsettled.mem_keys_iff.mp hfirst
        have hbehind : key ∉ keys entries := mt hsettled.mem_keys_iff.mpr hnew
        change (keys entries ++ [key]).idxOf first < (keys entries ++ [key]).idxOf key
        rw [List.idxOf_append_of_mem hold, List.idxOf_append_of_notMem hbehind]
        exact Nat.lt_add_right _ (List.idxOf_lt_length_of_mem hold)
  mem_iff field := by
    rw [mem_insert_iff hsettled.distinct, isLast_append_singleton_iff, hsettled.mem_iff]

end Settled

theorem settled_ofEntries (entries : List (String × α)) : Settled entries (ofEntries entries) := by
  induction entries using List.reverseRecOn with
  | nil => exact .nil
  | append_singleton entries field ih =>
      rw [ofEntries_append_singleton]
      exact ih.insert field.1 field.2

/-! ### Values made entry by entry -/

/-- Fields with entries written into them, one after the other. -/
def insertAll (fields : Fields α) (entries : List (String × α)) : Fields α :=
  entries.foldl (fun fields (key, entry) => fields.insert key entry) fields

theorem ofEntries_eq_insertAll (entries : List (String × α)) :
    ofEntries entries = insertAll [] entries := rfl

theorem insertAll_cons (fields : Fields α) (field : String × α) (rest : List (String × α)) :
    fields.insertAll (field :: rest) = (fields.insert field.1 field.2).insertAll rest := rfl

/-- A field under the key of an entry, with something made from it. -/
def MadeFrom (R : α → β → Prop) (entry : String × α) (field : String × β) : Prop :=
  field.1 = entry.1 ∧ R entry.2 field.2

section MadeFrom

variable {R : α → β → Prop} {made : Fields β} {value : β}

theorem forall₂_insert (hfields : List.Forall₂ (MadeFrom R) fields made) (hentry : R entry value) :
    List.Forall₂ (MadeFrom R) (fields.insert key entry) (made.insert key value) := by
  induction hfields with
  | nil => exact .cons ⟨rfl, hentry⟩ .nil
  | @cons head other rest others hhead hrest ih =>
      obtain ⟨name, old⟩ := head
      obtain ⟨_, result⟩ := other
      obtain ⟨rfl, hold⟩ := hhead
      rw [insert, insert]
      split
      · exact .cons ⟨rfl, hentry⟩ hrest
      · exact .cons ⟨rfl, hold⟩ ih

theorem forall₂_insertAll {values : List (String × β)}
    (hvalues : List.Forall₂ (MadeFrom R) entries values)
    (hfields : List.Forall₂ (MadeFrom R) fields made) :
    List.Forall₂ (MadeFrom R) (fields.insertAll entries) (made.insertAll values) := by
  induction hvalues generalizing fields made with
  | nil => exact hfields
  | @cons entry field rest others hentry _ ih =>
      obtain ⟨hkey, hvalue⟩ := hentry
      rw [insertAll_cons, insertAll_cons, hkey]
      exact ih (forall₂_insert hfields hvalue)

end MadeFrom

section Steps

variable (f : α → Except ε β)

/-- Steps that write what they make give what they make, written. -/
theorem foldlM_insert_eq_ok_iff {fields result : Fields β} :
    entries.foldlM (fun (fields : Fields β) entry =>
        (f entry.2).map (fields.insert entry.1)) fields = .ok result ↔
      ∃ values, List.Forall₂ (MadeFrom fun entry value => f entry = .ok value) entries values ∧
        fields.insertAll values = result := by
  induction entries generalizing fields with
  | nil => simp [pure, Except.pure, insertAll]
  | cons entry rest ih =>
      rw [List.foldlM_cons, bind_eq_ok_iff]
      simp only [map_eq_ok_iff, ih, List.forall₂_cons_left_iff]
      constructor
      · rintro ⟨_, ⟨value, hvalue, rfl⟩, values, hvalues, hresult⟩
        exact ⟨(entry.1, value) :: values, ⟨_, _, ⟨rfl, hvalue⟩, hvalues, rfl⟩, hresult⟩
      · rintro ⟨_, ⟨⟨key, value⟩, values, ⟨rfl, hvalue⟩, hvalues, rfl⟩, hresult⟩
        exact ⟨_, ⟨value, hvalue, rfl⟩, values, hvalues, hresult⟩

/-- Where all entries succeed, the ones that are left give the same fields. -/
theorem foldlM_insert_ofEntries {result : Fields β}
    (hfold : entries.foldlM (fun (fields : Fields β) entry =>
      (f entry.2).map (fields.insert entry.1)) [] = .ok result) :
    (ofEntries entries).foldlM (fun (fields : Fields β) entry =>
      (f entry.2).map (fields.insert entry.1)) [] = .ok result := by
  obtain ⟨values, hvalues, rfl⟩ := (foldlM_insert_eq_ok_iff f).mp hfold
  have hsettled : List.Forall₂ (MadeFrom fun entry value => f entry = .ok value)
      (ofEntries entries) (insertAll [] values) := by
    rw [ofEntries_eq_insertAll]
    exact forall₂_insertAll hvalues .nil
  -- under distinct keys nothing is written over any more
  rw [foldlM_insert_nil (fun entry : String × α => f entry.2) (settled_ofEntries entries).distinct,
    mapM_eq_ok_iff]
  exact hsettled.imp fun entry field hfield => map_mk_eq_ok_iff.mpr hfield

end Steps

end Reshape.Fields
