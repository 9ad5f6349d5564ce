import Reshape.Fields
import Reshape.Proofs.Except

/-!
# Fields made entry by entry

A step that makes the entry for each key in turn writes into fields that grow. Where the keys are
distinct, nothing is ever overwritten: the fields are those of a map over the entries, in their order.
-/

namespace Reshape

theorem map_mk_eq_ok_iff {α β ε : Type} {key : α} {first : Except ε β} {field : α × β} :
    first.map (Prod.mk key) = .ok field ↔ field.1 = key ∧ first = .ok field.2 := by
  rw [map_eq_ok_iff]
  constructor
  · rintro ⟨value, hvalue, rfl⟩
    exact ⟨rfl, hvalue⟩
  · rintro ⟨rfl, hvalue⟩
    exact ⟨field.2, hvalue, rfl⟩

namespace Fields

variable {α β ε : Type} {entries : List (String × α)}

theorem mem_of_get? {fields : Fields α} {key : String} {entry : α}
    (hget : fields.get? key = some entry) : (key, entry) ∈ fields := by
  obtain ⟨before, after, rfl, -⟩ := List.lookup_eq_some_iff.mp hget
  exact List.mem_append_right before List.mem_cons_self

/-- Under distinct keys every entry is found. -/
theorem get?_of_mem {fields : Fields α} (hkeys : fields.keys.Nodup) {field : String × α}
    (hmem : field ∈ fields) : fields.get? field.1 = some field.2 := by
  induction fields with
  | nil => cases hmem
  | cons head rest ih =>
      obtain ⟨hnew, hrest⟩ := List.nodup_cons.mp hkeys
      rw [get?_cons]
      rcases List.mem_cons.mp hmem with rfl | hmem
      · rw [if_pos rfl]
      · have hne : field.1 ≠ head.1 := fun heq => hnew (heq ▸ List.mem_map_of_mem hmem)
        rw [if_neg hne, ih hrest hmem]

theorem keys_eq_of_forall₂ {fields : Fields β}
    (hpaired : List.Forall₂ (fun entry field => field.1 = entry.1) entries fields) :
    fields.keys = keys entries := by
  induction hpaired with
  | nil => rfl
  | cons hkey _ ih => exact congrArg₂ List.cons hkey ih

/-- Writing entries under distinct new keys one after the other appends their values in order. -/
theorem foldlM_insert (f : String × α → Except ε β) (fields : Fields β)
    (hkeys : (fields.keys ++ keys entries).Nodup) :
    entries.foldlM (fun (fields : Fields β) entry => (f entry).map (fields.insert entry.1)) fields =
      (entries.mapM fun entry => (f entry).map (Prod.mk entry.1)).map (fields ++ ·) := by
  induction entries generalizing fields with
  | nil => simp [pure, Except.pure, Except.map]
  | cons entry rest ih =>
      rw [List.foldlM_cons, List.mapM_cons]
      cases f entry with
      | error error => rfl
      | ok value =>
          have hnew : entry.1 ∉ fields.keys := by
            intro hmem
            exact (List.nodup_append.mp hkeys).2.2 _ hmem _ (by simp [keys]) rfl
          have hrest : (keys (fields ++ [(entry.1, value)]) ++ keys rest).Nodup := by
            simpa [keys] using hkeys
          change rest.foldlM _ (fields.insert entry.1 value) = _
          rw [insert_of_not_mem hnew, ih _ hrest]
          cases rest.mapM fun entry => (f entry).map (Prod.mk entry.1) with
          | error error => rfl
          | ok others => simp [Except.map, bind, Except.bind, pure, Except.pure]

theorem foldlM_insert_nil (f : String × α → Except ε β) (hkeys : (keys entries).Nodup) :
    entries.foldlM (fun (fields : Fields β) entry => (f entry).map (fields.insert entry.1)) [] =
      entries.mapM fun entry => (f entry).map (Prod.mk entry.1) := by
  rw [foldlM_insert f [] hkeys]
  cases entries.mapM fun entry => (f entry).map (Prod.mk entry.1) <;> rfl

end Fields

end Reshape
